import Mmltk.Benchmark.OrdinaryDownload
import Mmltk.Foundation.GuardedRuns

namespace Mmltk.Benchmark.Ordinary

open Mmltk.Foundation

/-! Any sequence of runs and attempts, each ended anywhere, against an object that changes. -/

variable {V ι : Type} {remote : RemoteObject V} {identity : ArtifactIdentity ι}
  {request : DownloadRequest} {files : DownloadFiles ι} {transfer : Transfer V}

/-! What the server and the transport promise. -/

/-- A header line precedes its response; the validators of a final response are of the version that
is served; a range is of the version that `If-Range` asked for; the body is that version's, and a
transport that reports success has delivered all of it. -/
def Transfer.Honest (remote : RemoteObject V) (transfer : Transfer V) : Event V → Prop
  | .line _ => transfer.responseHeadersValid = false
  | .endOfHeaders version =>
      transfer.responseHeadersValid = false ∧
        (transfer.final = true →
          remote.Names transfer.http.etag transfer.http.lastModified version) ∧
        ((transfer.http.responseCode = 206 ∨ transfer.http.responseCode = 416) →
          transfer.requestedResumeOffset ≠ 0 →
            remote.ifRange transfer.resumeEtag transfer.resumeLastModified = version ∧
              ∀ range ∈ transfer.http.range, range.total = (remote.content version).size)
  | .body chunk =>
      transfer.responseHeadersValid = true → transfer.http.responseCode ≠ 416 →
        ∀ version ∈ transfer.served, (remote.content version).Holds transfer.sent chunk
  | .finished ok =>
      ok = true → transfer.responseHeadersValid = true → transfer.http.responseCode = 200 →
        ∀ version ∈ transfer.served, transfer.sent = (remote.content version).size
  | _ => True

/-- No byte of a complete response arrives while the checkpoint keeps a validator of another version. -/
def Transfer.Unspliced (remote : RemoteObject V) (transfer : Transfer V) : Event V → Prop
  | .body chunk =>
      chunk ≠ [] → transfer.responseHeadersValid = true → transfer.http.responseCode = 200 →
        ∀ version ∈ transfer.served,
          remote.Names transfer.resumeEtag transfer.resumeLastModified version
  | _ => True

def During (property : Transfer V → Event V → Prop) (download : Download V ι) (event : Event V) :
    Prop :=
  match download.phase with
  | .transferring transfer => property transfer event
  | _ => True

instance [DecidableEq V] (event : Event V) : Decidable (transfer.Honest remote event) :=
  match event with
  | .line _ => inferInstanceAs (Decidable (_ = _))
  | .endOfHeaders _ => inferInstanceAs (Decidable (_ ∧ _))
  | .body _ => inferInstanceAs (Decidable (_ → _))
  | .finished _ => inferInstanceAs (Decidable (_ → _))
  | .start | .advance | .abandon | .fail | .stop => inferInstanceAs (Decidable True)

instance [DecidableEq V] (event : Event V) : Decidable (transfer.Unspliced remote event) :=
  match event with
  | .body _ => inferInstanceAs (Decidable (_ → _))
  | .start | .advance | .line _ | .endOfHeaders _ | .finished _ | .abandon | .fail | .stop =>
      inferInstanceAs (Decidable True)

instance {property : Transfer V → Event V → Prop}
    [∀ transfer event, Decidable (property transfer event)] (download : Download V ι)
    (event : Event V) : Decidable (During property download event) :=
  match hphase : download.phase with
  | .transferring transfer =>
      decidable_of_iff (property transfer event) (by rw [During, hphase])
  | .idle | .validating | .removingDestination | .removingComplete | .preparing _
  | .discardingPart _ | .discardingMetadata _ | .opening .. | .admittingSize ..
  | .admittingValidators .. | .recording _ | .persisting .. | .resettingPart ..
  | .resettingMetadata .. | .publishing _ | .completing _ | .concluding =>
      isTrue (by rw [During, hphase]; trivial)

/-! The invariant. -/

/-- The partial file's bytes are the first of one version, and the validators are that version's. -/
def Backed (remote : RemoteObject V) (part : Option ByteContent) (etag lastModified : Text) : Prop :=
  ∀ content, part = some content → 0 < content.size →
    ∃ version, content.PrefixOf (remote.content version) ∧ remote.Names etag lastModified version

structure FilesSound (remote : RemoteObject V) (identity : ArtifactIdentity ι)
    (request : DownloadRequest) (files : DownloadFiles ι) : Prop where
  backed : ∀ metadata, files.partMetadata = some metadata →
    Backed remote files.part metadata.etag metadata.lastModified
  published : ∀ content, files.destination = some content →
    ∃ version, content.Same (remote.content version) ∧
      ∀ metadata, files.complete = some metadata →
        remote.Names metadata.etag metadata.lastModified version ∧
          metadata.identity =
            identity request.url content.size metadata.etag metadata.lastModified

/-- A range is accepted for the offset that was asked for, to the end of the artifact. -/
def Transfer.Ranged (request : DownloadRequest) (transfer : Transfer V) : Prop :=
  (transfer.http.responseCode = 206 →
    transfer.requestedResumeOffset ≠ 0 ∧ ∃ range, transfer.http.range = some range ∧
      range.unsatisfied = false ∧ range.start = transfer.requestedResumeOffset ∧
      range.last + 1 = range.total ∧
      (request.expectedSize ≠ 0 → range.total = request.expectedSize)) ∧
  (transfer.http.responseCode = 416 →
    transfer.requestedResumeOffset ≠ 0 ∧ ∃ range, transfer.http.range = some range ∧
      range.unsatisfied = true ∧ range.total = transfer.requestedResumeOffset ∧
      (request.expectedSize ≠ 0 → range.total = request.expectedSize))

structure Accepted (remote : RemoteObject V) (transfer : Transfer V) (content : ByteContent)
    (version : V) : Prop where
  served : transfer.served = some version
  final : transfer.final = true
  bytes : content.PrefixOf (remote.content version)
  names : remote.Names transfer.http.etag transfer.http.lastModified version
  resumed : 0 < content.size ∨ transfer.http.responseCode ≠ 200 →
    remote.Names transfer.resumeEtag transfer.resumeLastModified version
  sent : transfer.http.responseCode ≠ 416 → transfer.sent = content.size
  total : transfer.http.responseCode ≠ 200 →
    transfer.responseTotal = (remote.content version).size

structure Transferring (remote : RemoteObject V) (request : DownloadRequest)
    (part : Option ByteContent) (transfer : Transfer V) : Prop where
  total : ∀ range, transfer.http.range = some range →
    transfer.responseTotal = range.total ∧ 0 < range.total
  ranged : transfer.responseHeadersValid = true → transfer.Ranged request
  backed : Backed remote part transfer.resumeEtag transfer.resumeLastModified
  opened : ∃ content, part = some content ∧ content.size = transfer.writeOffset ∧
    (transfer.responseHeadersValid = true → ∃ version, Accepted remote transfer content version)
  waiting : transfer.responseHeadersValid = false →
    transfer.writeOffset = transfer.requestedResumeOffset
  validated : transfer.requestedResumeOffset ≠ 0 →
    ¬ (transfer.resumeEtag = [] ∧ transfer.resumeLastModified = [])

def Recorded (files : DownloadFiles ι) (transfer : Transfer V) : Prop :=
  ∃ metadata, files.partMetadata = some metadata ∧ metadata.etag = transfer.resumeEtag ∧
    metadata.lastModified = transfer.resumeLastModified

/-- The partial file is the whole of a version, and the document will name it. -/
def Whole (remote : RemoteObject V) (transfer : Transfer V) (file : Option ByteContent) : Prop :=
  ∃ content version, file = some content ∧ content.Same (remote.content version) ∧
    remote.Names transfer.effectiveEtag transfer.effectiveLastModified version

def Cleared (files : DownloadFiles ι) : Prop := files.destination = none ∧ files.complete = none

def PhaseSound (remote : RemoteObject V) (request : DownloadRequest) (files : DownloadFiles ι) :
    Phase V → Prop
  | .idle | .validating | .removingDestination => True
  | .removingComplete => files.destination = none
  | .preparing _ | .discardingPart _ | .resettingPart .. | .resettingMetadata .. => Cleared files
  | .discardingMetadata _ => Cleared files ∧ files.part = none
  | .opening _ etag lastModified => Cleared files ∧ Backed remote files.part etag lastModified
  | .admittingSize _ etag lastModified | .admittingValidators _ etag lastModified =>
      Cleared files ∧ Backed remote files.part etag lastModified ∧ files.part.isSome
  | .recording transfer => Cleared files ∧ Transferring remote request files.part transfer
  | .transferring transfer =>
      Cleared files ∧ Transferring remote request files.part transfer ∧ Recorded files transfer
  | .persisting transfer _ =>
      Cleared files ∧ Backed remote files.part transfer.effectiveEtag transfer.effectiveLastModified
  | .publishing transfer => Cleared files ∧ Whole remote transfer files.part
  | .completing transfer =>
      files.complete = none ∧ files.part = none ∧ Whole remote transfer files.destination
  | .concluding => files.part = none

structure Sound (remote : RemoteObject V) (identity : ArtifactIdentity ι) (request : DownloadRequest)
    (download : Download V ι) : Prop where
  files : FilesSound remote identity request download.files
  phase : PhaseSound remote request download.files download.phase

theorem backed_none {etag lastModified : Text} : Backed remote none etag lastModified :=
  fun _ hpart => nomatch hpart

theorem backed_empty {part : Option ByteContent} {etag lastModified : Text} :
    Backed remote (part.map fun _ => .empty) etag lastModified := by
  intro content hpart hsize
  obtain ⟨before, -, rfl⟩ := Option.map_eq_some_iff.mp hpart
  exact absurd hsize (Nat.lt_irrefl 0)

theorem backed_getD {part : Option ByteContent} {etag lastModified : Text}
    (h : Backed remote part etag lastModified) :
    Backed remote (some (part.getD .empty)) etag lastModified := by
  cases part with
  | some content => exact h
  | none =>
      intro content hpart hsize
      cases hpart
      exact absurd hsize (Nat.lt_irrefl 0)

/-- The files, once the partial one holds less or nothing. -/
theorem FilesSound.withPart (h : FilesSound remote identity request files)
    {part : Option ByteContent}
    (hbacked : ∀ etag lastModified, Backed remote files.part etag lastModified →
      Backed remote part etag lastModified) :
    FilesSound remote identity request { files with part } where
  backed metadata hmetadata := hbacked _ _ (h.backed metadata hmetadata)
  published := h.published

theorem FilesSound.withMetadata (h : FilesSound remote identity request files)
    {partMetadata : Option PartialMetadata}
    (hbacked : ∀ metadata, partMetadata = some metadata →
      Backed remote files.part metadata.etag metadata.lastModified) :
    FilesSound remote identity request { files with partMetadata } where
  backed := hbacked
  published := h.published

theorem cleared_retried {attempt : Nat} {final : Bool} (hcleared : Cleared files) :
    PhaseSound remote request files (Download.retried request attempt final) := by
  rw [Download.retried]
  split
  · trivial
  · exact hcleared

theorem Accepted.effective {content : ByteContent} {version : V}
    (h : Accepted remote transfer content version) (hvalid : transfer.responseHeadersValid = true)
    (hsize : 0 < content.size) :
    remote.Names transfer.effectiveEtag transfer.effectiveLastModified version := by
  have hnames := (h.resumed (.inl hsize)).orElse h.names
  rw [Transfer.effectiveEtag, Transfer.effectiveLastModified, hvalid]
  simpa using hnames

/-- The validators that a transfer leaves are those of the bytes that it leaves. -/
theorem Transferring.effective {part : Option ByteContent}
    (h : Transferring remote request part transfer) :
    Backed remote part transfer.effectiveEtag transfer.effectiveLastModified := by
  intro content hpart hsize
  cases hvalid : transfer.responseHeadersValid with
  | false =>
      rw [Transfer.effectiveEtag, Transfer.effectiveLastModified, hvalid]
      simpa using h.backed content hpart hsize
  | true =>
      obtain ⟨opened, hopened, -, haccepted⟩ := h.opened
      cases hopened.symm.trans hpart
      obtain ⟨version, haccepted⟩ := haccepted hvalid
      exact ⟨version, haccepted.bytes, haccepted.effective hvalid hsize⟩

theorem transferring_begin {part : Option ByteContent} {content : ByteContent}
    {etag lastModified : Text} (attempt : Nat) (hpart : part = some content)
    (hbacked : Backed remote part etag lastModified)
    (hvalidated : content.size ≠ 0 → ¬ (etag = [] ∧ lastModified = [])) :
    Transferring remote request part (.begin attempt content.size etag lastModified) where
  total _ hrange := nomatch hrange
  ranged hvalid := nomatch hvalid
  backed := hbacked
  opened := ⟨content, hpart, rfl, fun hvalid => nomatch hvalid⟩
  waiting _ := rfl
  validated := hvalidated

theorem advance_sound [DecidableEq ι] {download : Download V ι}
    (h : Sound remote identity request download) :
    Sound remote identity request (download.advance identity request) := by
  obtain ⟨files, phase⟩ := download
  obtain ⟨hfiles, hphase⟩ := h
  dsimp only at hfiles hphase
  cases phase with
  | idle => exact ⟨hfiles, trivial⟩
  | validating =>
      rw [Download.advance]
      dsimp only
      split
      · exact ⟨hfiles, trivial⟩
      · exact ⟨hfiles, trivial⟩
  | removingDestination =>
      exact ⟨⟨hfiles.backed, fun content hcontent => nomatch hcontent⟩, rfl⟩
  | removingComplete =>
      refine ⟨⟨hfiles.backed, fun content hcontent => ?_⟩, hphase, rfl⟩
      cases hphase.symm.trans hcontent
  | preparing attempt =>
      rw [Download.advance]
      dsimp only
      cases hresumable : Download.resumable request files with
      | none => exact ⟨hfiles, hphase⟩
      | some validators =>
          obtain ⟨etag, lastModified⟩ := validators
          refine ⟨hfiles, hphase, ?_⟩
          obtain ⟨metadata, hmetadata, hadmitted⟩ := Option.bind_eq_some_iff.mp hresumable
          split at hadmitted
          · cases hadmitted
            exact hfiles.backed metadata hmetadata
          · cases hadmitted
  | discardingPart attempt =>
      exact ⟨hfiles.withPart fun _ _ _ => backed_none, hphase, rfl⟩
  | discardingMetadata attempt =>
      obtain ⟨hcleared, hpart⟩ := hphase
      have hnone : Backed remote files.part [] [] := hpart ▸ backed_none
      exact ⟨hfiles.withMetadata fun _ hmetadata => (nomatch hmetadata), hcleared, hnone⟩
  | opening attempt etag lastModified =>
      exact ⟨hfiles.withPart fun _ _ hbacked => backed_getD hbacked, hphase.1,
        backed_getD hphase.2, rfl⟩
  | admittingSize attempt etag lastModified =>
      rw [Download.advance]
      dsimp only
      split
      · refine ⟨hfiles.withPart fun _ _ _ => backed_empty, hphase.1, backed_empty, ?_⟩
        rw [Download.truncated, Option.isSome_map]
        exact hphase.2.2
      · exact ⟨hfiles, hphase⟩
  | admittingValidators attempt etag lastModified =>
      obtain ⟨hcleared, hbacked, hsome⟩ := hphase
      obtain ⟨content, hpart⟩ := Option.isSome_iff_exists.mp hsome
      rw [Download.advance]
      dsimp only
      split
      · refine ⟨hfiles.withPart fun _ _ _ => backed_empty, hcleared, ?_⟩
        have hempty : (⟨files, .admittingValidators attempt etag lastModified⟩ :
            Download V ι).truncated.part = some .empty := by
          rw [Download.truncated, hpart]
          rfl
        exact transferring_begin attempt hempty backed_empty fun hsize => absurd rfl hsize
      next hkept =>
        refine ⟨hfiles, hcleared, ?_⟩
        have hsize : (⟨files, .admittingValidators attempt etag lastModified⟩ :
            Download V ι).partSize = content.size := by
          rw [Download.partSize, hpart]
          rfl
        rw [hsize] at hkept ⊢
        exact transferring_begin attempt hpart hbacked fun hpositive hnothing =>
          hkept ⟨hpositive, hnothing⟩
  | recording transfer =>
      obtain ⟨hcleared, htransferring⟩ := hphase
      refine ⟨hfiles.withMetadata fun metadata hmetadata => ?_, hcleared, htransferring,
        _, rfl, rfl, rfl⟩
      cases hmetadata
      exact htransferring.backed
  | transferring transfer => exact ⟨hfiles, hphase⟩
  | persisting transfer final =>
      obtain ⟨hcleared, hbacked⟩ := hphase
      refine ⟨hfiles.withMetadata fun metadata hmetadata => ?_, cleared_retried hcleared⟩
      cases hmetadata
      exact hbacked
  | resettingPart attempt final => exact ⟨hfiles.withPart fun _ _ _ => backed_none, hphase⟩
  | resettingMetadata attempt final =>
      exact ⟨hfiles.withMetadata fun _ hmetadata => (nomatch hmetadata), cleared_retried hphase⟩
  | publishing transfer =>
      obtain ⟨hcleared, content, version, hpart, hsame, hnames⟩ := hphase
      refine ⟨⟨fun _ _ => backed_none, fun published hpublished => ?_⟩, hcleared.2, rfl,
        content, version, hpart, hsame, hnames⟩
      cases hpart.symm.trans hpublished
      refine ⟨version, hsame, fun metadata hmetadata => ?_⟩
      cases hcleared.2.symm.trans hmetadata
  | completing transfer =>
      obtain ⟨hcomplete, hpart, content, version, hdestination, hsame, hnames⟩ := hphase
      refine ⟨⟨hfiles.backed, fun published hpublished => ?_⟩, hpart⟩
      cases hdestination.symm.trans hpublished
      refine ⟨version, hsame, fun metadata hmetadata => ?_⟩
      cases hmetadata
      refine ⟨hnames, ?_⟩
      dsimp only
      rw [hdestination]
      rfl
  | concluding => exact ⟨hfiles.withMetadata fun _ hmetadata => (nomatch hmetadata), trivial⟩

/-! The callbacks of the transport. -/

theorem onHeader_fields (transfer : Transfer V) (header : Text) :
    (transfer.onHeader header).requestedResumeOffset = transfer.requestedResumeOffset ∧
      (transfer.onHeader header).writeOffset = transfer.writeOffset ∧
      (transfer.onHeader header).resumeEtag = transfer.resumeEtag ∧
      (transfer.onHeader header).resumeLastModified = transfer.resumeLastModified ∧
      (transfer.responseHeadersValid = false →
        (transfer.onHeader header).responseHeadersValid = false) := by
  rw [Transfer.onHeader]
  dsimp only
  split
  · exact ⟨rfl, rfl, rfl, rfl, fun _ => rfl⟩
  · split <;> exact ⟨rfl, rfl, rfl, rfl, id⟩
  · exact ⟨rfl, rfl, rfl, rfl, id⟩

theorem onHeader_total {transfer : Transfer V} (header : Text)
    (h : ∀ range, transfer.http.range = some range →
      transfer.responseTotal = range.total ∧ 0 < range.total) :
    ∀ range, (transfer.onHeader header).http.range = some range →
      (transfer.onHeader header).responseTotal = range.total ∧ 0 < range.total := by
  intro range
  have hrange := transfer.http.apply_range header
  rw [Transfer.onHeader]
  revert hrange
  generalize transfer.http.apply header = applied
  obtain ⟨http, kind⟩ := applied
  rintro (⟨hkind, hnone⟩ | ⟨hkind, hparsed⟩ | ⟨hstatus, hcontent, hkept⟩)
  · cases hkind
    intro hrange
    cases hnone.symm.trans hrange
  · cases hkind
    dsimp only at hparsed ⊢
    cases hparse : parseContentRange (header.drop 14) with
    | none =>
        simp only [hparsed, hparse]
        intro hrange
        cases hrange
    | some parsed =>
        simp only [hparsed, hparse]
        intro hrange
        cases hrange
        exact ⟨rfl, (parseContentRange_sound hparse).1⟩
  · dsimp only at hstatus hcontent hkept
    cases kind with
    | statusLine => exact absurd rfl hstatus
    | contentRange => exact absurd rfl hcontent
    | etag | lastModified | other => exact fun hrange => h range (hkept ▸ hrange)

theorem Transferring.line {part : Option ByteContent} (h : Transferring remote request part transfer)
    (header : Text) (hwaiting : transfer.responseHeadersValid = false) :
    Transferring remote request part (transfer.onHeader header) := by
  obtain ⟨hrequested, hoffset, hetag, hlast, hinvalid⟩ := onHeader_fields transfer header
  have hstill := hinvalid hwaiting
  obtain ⟨content, hpart, hsize, -⟩ := h.opened
  refine ⟨onHeader_total header h.total, fun hvalid => ?_, ?_, ⟨content, hpart, ?_, fun hvalid => ?_⟩,
    fun _ => ?_, ?_⟩
  · cases hstill.symm.trans hvalid
  · rw [hetag, hlast]
    exact h.backed
  · rw [hoffset]
    exact hsize
  · cases hstill.symm.trans hvalid
  · rw [hoffset, hrequested]
    exact h.waiting hwaiting
  · rw [hrequested, hetag, hlast]
    exact h.validated

theorem Transferring.withError {part : Option ByteContent}
    (h : Transferring remote request part transfer) (error : Option Bool) :
    Transferring remote request part { transfer with callbackError := error } where
  total := h.total
  ranged := h.ranged
  backed := h.backed
  opened :=
    have ⟨content, hpart, hsize, haccepted⟩ := h.opened
    ⟨content, hpart, hsize, fun hvalid =>
      have ⟨version, h⟩ := haccepted hvalid
      ⟨version, h.served, h.final, h.bytes, h.names, h.resumed, h.sent, h.total⟩⟩
  waiting := h.waiting
  validated := h.validated

/-- The header block that is accepted is that of the range that was asked for. -/
theorem acceptsHeaders_ranged (haccepts : transfer.acceptsHeaders request = true)
    (htotal : ∀ range, transfer.http.range = some range →
      transfer.responseTotal = range.total ∧ 0 < range.total) :
    transfer.Ranged request := by
  unfold Transfer.acceptsHeaders at haccepts
  constructor
  · intro hcode
    simp only [hcode, decide_true, Bool.true_or, Bool.and_true, if_true] at haccepts
    split at haccepts
    next hranged =>
      simp only [Bool.and_eq_true, decide_eq_true_eq, Option.any_eq_true] at hranged haccepts
      obtain ⟨⟨hrequested, range, hrange, ⟨hsatisfied, hstart⟩, hlast⟩, -⟩ := hranged
      obtain ⟨hsame, hpositive⟩ := htotal range hrange
      refine ⟨hrequested, range, hrange, by simpa using hsatisfied, hstart, by omega, fun _ => ?_⟩
      rw [← hsame]
      exact haccepts
    next hranged =>
      have haccepted := haccepts
      simp only [Bool.and_eq_true, decide_eq_true_eq, Option.any_eq_true] at haccepted
      obtain ⟨hrequested, range, hrange, ⟨hsatisfied, hstart⟩, hlast⟩ := haccepted
      obtain ⟨-, hpositive⟩ := htotal range hrange
      refine ⟨hrequested, range, hrange, by simpa using hsatisfied, hstart, by omega,
        fun hexpected => ?_⟩
      rw [haccepts, Bool.true_and, decide_eq_true_eq] at hranged
      exact absurd hexpected hranged
  · intro hcode
    have hother : ¬ (416 : Int) = 206 := by decide
    simp only [hcode, hother, decide_true, Bool.or_true, Bool.and_true, if_true, if_false]
      at haccepts
    split at haccepts
    next hranged =>
      simp only [Bool.and_eq_true, decide_eq_true_eq, Option.any_eq_true] at hranged haccepts
      obtain ⟨⟨hrequested, range, hrange, hunsatisfied, hsize⟩, -⟩ := hranged
      refine ⟨hrequested, range, hrange, hunsatisfied, hsize, fun _ => ?_⟩
      rw [← (htotal range hrange).1]
      exact haccepts
    next hranged =>
      have haccepted := haccepts
      simp only [Bool.and_eq_true, decide_eq_true_eq, Option.any_eq_true] at haccepted
      obtain ⟨hrequested, range, hrange, hunsatisfied, hsize⟩ := haccepted
      refine ⟨hrequested, range, hrange, hunsatisfied, hsize, fun hexpected => ?_⟩
      rw [haccepts, Bool.true_and, decide_eq_true_eq] at hranged
      exact absurd hexpected hranged

/-- The version that a range is of is the one that the partial file is of. -/
theorem Transferring.resumes {part : Option ByteContent} {content : ByteContent} {version : V}
    (h : Transferring remote request part transfer) (hranged : transfer.Ranged request)
    (hpart : part = some content) (hsize : content.size = transfer.writeOffset)
    (hoffset : transfer.writeOffset = transfer.requestedResumeOffset)
    (hrequested : (transfer.http.responseCode = 206 ∨ transfer.http.responseCode = 416) →
      transfer.requestedResumeOffset ≠ 0 →
        remote.ifRange transfer.resumeEtag transfer.resumeLastModified = version ∧
          ∀ range ∈ transfer.http.range, range.total = (remote.content version).size)
    (hfinal : transfer.final = true) (hcode : transfer.http.responseCode ≠ 200) :
    content.PrefixOf (remote.content version) ∧
      remote.Names transfer.resumeEtag transfer.resumeLastModified version ∧
      transfer.responseTotal = (remote.content version).size ∧
      (transfer.http.responseCode ≠ 416 →
        (if transfer.http.responseCode = 206 then
          (transfer.http.range.map ParsedContentRange.start).getD 0
        else 0) = content.size) := by
  have hnotWhole : transfer.http.responseCode = 206 ∨ transfer.http.responseCode = 416 := by
    rw [Transfer.final] at hfinal
    simpa [hcode] using hfinal
  have hasked : transfer.requestedResumeOffset ≠ 0 ∧
      ∃ range, transfer.http.range = some range :=
    hnotWhole.elim
      (fun hcode => have ⟨hasked, range, hrange, _⟩ := hranged.1 hcode
        ⟨hasked, range, hrange⟩)
      (fun hcode => have ⟨hasked, range, hrange, _⟩ := hranged.2 hcode
        ⟨hasked, range, hrange⟩)
  obtain ⟨hpositive, range, hrange⟩ := hasked
  obtain ⟨hversion, htotal⟩ := hrequested hnotWhole hpositive
  obtain ⟨backing, hbytes, hnames⟩ := h.backed content hpart (by omega)
  have hsame : backing = version := by
    rw [← hversion]
    exact (hnames.ifRange_eq (h.validated hpositive)).symm
  subst hsame
  refine ⟨hbytes, hnames, ?_, fun hnot => ?_⟩
  · rw [(h.total range hrange).1]
    exact htotal range hrange
  · have hcode := hnotWhole.resolve_right hnot
    obtain ⟨-, ranged, hranged, -, hstart, -⟩ := hranged.1 hcode
    rw [if_pos hcode, hranged]
    exact hstart.trans (hoffset.symm.trans hsize.symm)

/-- The end of a header block: what it accepts is of the version that the partial file is of. -/
theorem finishHeaderBlock_sound {version : V} (hcleared : Cleared files)
    (h : Transferring remote request files.part transfer) (hrecorded : Recorded files transfer)
    (hfiles : FilesSound remote identity request files)
    (hhonest : transfer.Honest remote (.endOfHeaders version)) :
    Sound remote identity request
      ((⟨files, .transferring transfer⟩ : Download V ι).finishHeaderBlock request transfer
        version) := by
  obtain ⟨hwaiting, hvalidators, hrequestedVersion⟩ := hhonest
  have hoffset := h.waiting hwaiting
  obtain ⟨content, hpart, hsize, -⟩ := h.opened
  rw [Download.finishHeaderBlock]
  split
  · exact ⟨hfiles, hcleared, h.withError _, hrecorded⟩
  next haccepts =>
  rw [Bool.not_eq_true, Bool.not_eq_false'] at haccepts
  have hranged := acceptsHeaders_ranged haccepts h.total
  dsimp only
  split
  next hrestarts =>
    -- a complete response starts the partial file over
    have hcode := hrestarts.1
    have hempty : (⟨files, .transferring transfer⟩ : Download V ι).truncated.part =
        some .empty := by
      rw [Download.truncated, hpart]
      rfl
    have hfinal : transfer.final = true := by
      rw [Transfer.final, hcode]
      rfl
    refine ⟨hfiles.withPart fun _ _ _ => backed_empty, hcleared,
      ⟨h.total, fun _ => hranged, backed_empty, ⟨_, hempty, rfl, fun _ => ⟨version, ?_⟩⟩,
        fun hinvalid => ?_, h.validated⟩, hrecorded⟩
    · exact
        { served := rfl
          final := hfinal
          bytes := ByteContent.prefixOf_empty _ rfl
          names := hvalidators hfinal
          resumed := fun hother => hother.elim (fun hpositive => absurd hpositive (Nat.lt_irrefl 0))
            fun hnotWhole => absurd hcode hnotWhole
          sent := fun _ => if_neg fun hnotWhole => by
            rw [hcode] at hnotWhole
            exact absurd hnotWhole (by decide)
          total := fun hnotWhole => absurd hcode hnotWhole }
    · cases hfinal.symm.trans hinvalid
  next hkept =>
    refine ⟨hfiles, hcleared, ⟨h.total, fun _ => hranged, h.backed, ⟨content, hpart, hsize,
      fun hfinal => ⟨version, ?_⟩⟩, fun _ => hoffset, h.validated⟩, hrecorded⟩
    have hresumes := h.resumes hranged hpart hsize hoffset hrequestedVersion
    rw [not_and, not_not] at hkept
    by_cases hcode : transfer.http.responseCode = 200
    · have hnone := hsize.trans (hoffset.trans (hkept hcode))
      exact
        { served := rfl
          final := hfinal
          bytes := ByteContent.prefixOf_empty _ hnone
          names := hvalidators hfinal
          resumed := fun hother => hother.elim (fun hpositive => absurd hnone hpositive.ne')
            fun hnotWhole => absurd hcode hnotWhole
          sent := fun _ => (if_neg (by rw [hcode]; decide)).trans hnone.symm
          total := fun hnotWhole => absurd hcode hnotWhole }
    · obtain ⟨hbytes, hnames, htotal, hsent⟩ := hresumes hfinal hcode
      exact
        { served := rfl
          final := hfinal
          bytes := hbytes
          names := hvalidators hfinal
          resumed := fun _ => hnames
          sent := hsent
          total := fun _ => htotal }

/-- Bytes of the body: they continue the version that the partial file is of. -/
theorem write_sound {chunk : List UInt8} (hcleared : Cleared files)
    (h : Transferring remote request files.part transfer) (hrecorded : Recorded files transfer)
    (hfiles : FilesSound remote identity request files)
    (hhonest : transfer.Honest remote (.body chunk))
    (hunspliced : transfer.Unspliced remote (.body chunk)) :
    Sound remote identity request
      ((⟨files, .transferring transfer⟩ : Download V ι).write request transfer chunk) := by
  unfold Download.write
  split
  · exact ⟨hfiles, hcleared, h, hrecorded⟩
  next hcode =>
  split
  · exact ⟨hfiles, hcleared, h.withError _, hrecorded⟩
  next hvalid =>
  rw [Bool.not_eq_true, Bool.not_eq_false'] at hvalid
  dsimp only
  split
  · exact ⟨hfiles, hcleared, h.withError _, hrecorded⟩
  obtain ⟨content, hpart, hsize, haccepted⟩ := h.opened
  obtain ⟨version, haccepted⟩ := haccepted hvalid
  have hnot : transfer.http.responseCode ≠ 416 := fun heq => by
    rw [heq] at hcode
    exact absurd hcode (by decide)
  have hchunk : (remote.content version).Holds content.size chunk := by
    rw [← haccepted.sent hnot]
    exact hhonest hvalid hnot version haccepted.served
  have hwritten : files.part.map (fun part => part.write transfer.writeOffset chunk) =
      some (content.write content.size chunk) := by
    rw [hpart, hsize]
    rfl
  have hextent : (content.write content.size chunk).size = content.size + chunk.length :=
    Nat.max_eq_right (Nat.le_add_right _ _)
  have hresumed : 0 < (content.write content.size chunk).size ∨
      transfer.http.responseCode ≠ 200 →
        remote.Names transfer.resumeEtag transfer.resumeLastModified version := by
    intro hother
    by_cases hchunked : chunk = []
    · refine haccepted.resumed (hother.imp_left fun hpositive => ?_)
      rwa [hextent, hchunked] at hpositive
    · by_cases hcomplete : transfer.http.responseCode = 200
      · exact hunspliced hchunked hvalid hcomplete version haccepted.served
      · exact haccepted.resumed (.inr hcomplete)
  have hbacked : Backed remote (some (content.write content.size chunk)) transfer.resumeEtag
      transfer.resumeLastModified := by
    intro written hsome hpositive
    cases hsome
    exact ⟨version, haccepted.bytes.write hchunk, hresumed (.inl hpositive)⟩
  obtain ⟨metadata, hmetadata, hetag, hlast⟩ := hrecorded
  have hstored : ∀ stored, files.partMetadata = some stored →
      Backed remote (files.part.map fun part => part.write transfer.writeOffset chunk)
        stored.etag stored.lastModified := by
    intro stored hstored
    cases hmetadata.symm.trans hstored
    rw [hwritten, hetag, hlast]
    exact hbacked
  refine ⟨⟨hstored, hfiles.published⟩, hcleared, ⟨h.total, h.ranged, ?_,
    ⟨_, hwritten, ?_, fun _ => ⟨version, ?_⟩⟩, ?_, h.validated⟩, metadata, hmetadata, hetag, hlast⟩
  · dsimp only
    rw [hwritten]
    exact hbacked
  · rw [hextent, hsize]
  · exact
      { served := haccepted.served
        final := haccepted.final
        bytes := haccepted.bytes.write hchunk
        names := haccepted.names
        resumed := hresumed
        sent := fun _ => by
          rw [hextent, ← haccepted.sent hnot]
        total := haccepted.total }
  · intro hinvalid
    cases hvalid.symm.trans hinvalid

/-- What a transfer leaves to do is sound, however it ended. -/
theorem finish_sound {ok : Bool} (hcleared : Cleared files)
    (h : Transferring remote request files.part transfer)
    (hfiles : FilesSound remote identity request files)
    (hhonest : transfer.Honest remote (.finished ok)) :
    Sound remote identity request
      ⟨files, (⟨files, .transferring transfer⟩ : Download V ι).finish request transfer ok⟩ := by
  refine ⟨hfiles, ?_⟩
  dsimp only
  unfold Download.finish
  split
  · exact hcleared
  · exact ⟨hcleared, h.effective⟩
  dsimp only
  split
  next hcomplete =>
    split
    · exact hcleared
    next hsized =>
      refine ⟨hcleared, ?_⟩
      obtain ⟨content, hpart, hsize, haccepted⟩ := h.opened
      have hextent : (⟨files, .transferring transfer⟩ : Download V ι).partSize = content.size := by
        rw [Download.partSize, hpart]
        rfl
      rw [hextent] at hcomplete hsized
      simp only [Bool.and_eq_true, Transfer.successfulStatus, Transfer.completeRange,
        Bool.or_eq_true, decide_eq_true_eq] at hcomplete
      obtain ⟨⟨hok, hvalid, hstatus⟩, hrange⟩ := hcomplete
      obtain ⟨version, haccepted⟩ := haccepted hvalid
      have hpositive : 0 < content.size := Nat.pos_of_ne_zero fun hnone => hsized (.inl hnone)
      refine ⟨content, version, hpart, haccepted.bytes.same ?_,
        haccepted.effective hvalid hpositive⟩
      by_cases hcode : transfer.http.responseCode = 200
      · have hnot : transfer.http.responseCode ≠ 416 := by
          rw [hcode]
          decide
        rw [← haccepted.sent hnot]
        exact hhonest hok hvalid hcode version haccepted.served
      · rw [← haccepted.total hcode]
        cases hstatus with
        | inl hnotWhole => exact (hrange.resolve_left fun hother =>
            hother (hnotWhole.resolve_left hcode)).2
        | inr hunsatisfied => exact hunsatisfied.2
  · exact ⟨hcleared, h.effective⟩

/-- What the server promises, and no splice. -/
def Allowed (remote : RemoteObject V) (download : Download V ι) (event : Event V) : Prop :=
  During (Transfer.Honest remote) download event ∧ During (Transfer.Unspliced remote) download event

instance [DecidableEq V] (download : Download V ι) (event : Event V) :
    Decidable (Allowed remote download event) :=
  inferInstanceAs (Decidable (_ ∧ _))

theorem step_sound [DecidableEq ι] {download : Download V ι} {event : Event V}
    (h : Sound remote identity request download) (hallowed : Allowed remote download event) :
    Sound remote identity request (download.step identity request event) := by
  cases event with
  | advance => exact advance_sound h
  | stop => exact ⟨h.files, trivial⟩
  | start =>
      obtain ⟨files, phase⟩ := download
      cases phase with
      | idle => exact ⟨h.files, trivial⟩
      | _ => exact h
  | fail =>
      obtain ⟨files, phase⟩ := download
      cases phase with
      | transferring transfer =>
          obtain ⟨hfiles, hcleared, htransferring, hrecorded⟩ := h
          simp only [Download.step]
          split
          · exact ⟨hfiles, hcleared, htransferring, hrecorded⟩
          · exact ⟨hfiles, hcleared, htransferring.withError _, hrecorded⟩
      | persisting transfer final => exact ⟨h.files, h.phase.1⟩
      | _ => exact h
  | abandon =>
      obtain ⟨files, phase⟩ := download
      cases phase with
      | transferring transfer => exact ⟨h.files, h.phase.1, h.phase.2.1.effective⟩
      | _ => exact h
  | finished ok =>
      obtain ⟨files, phase⟩ := download
      cases phase with
      | transferring transfer =>
          obtain ⟨hfiles, hcleared, htransferring, -⟩ := h
          exact finish_sound hcleared htransferring hfiles hallowed.1
      | _ => exact h
  | line header =>
      obtain ⟨files, phase⟩ := download
      cases phase with
      | transferring transfer =>
          obtain ⟨hfiles, hcleared, htransferring, metadata, hmetadata, hetag, hlast⟩ := h
          simp only [Download.step]
          split
          · exact ⟨hfiles, hcleared, htransferring, metadata, hmetadata, hetag, hlast⟩
          · obtain ⟨-, -, hkept, hkeptLast, -⟩ := onHeader_fields transfer header
            exact ⟨hfiles, hcleared, htransferring.line header hallowed.1, metadata, hmetadata,
              hetag.trans hkept.symm, hlast.trans hkeptLast.symm⟩
      | _ => exact h
  | endOfHeaders version =>
      obtain ⟨files, phase⟩ := download
      cases phase with
      | transferring transfer =>
          obtain ⟨hfiles, hcleared, htransferring, hrecorded⟩ := h
          simp only [Download.step]
          split
          · exact ⟨hfiles, hcleared, htransferring, hrecorded⟩
          · exact finishHeaderBlock_sound hcleared htransferring hrecorded hfiles hallowed.1
      | _ => exact h
  | body chunk =>
      obtain ⟨files, phase⟩ := download
      cases phase with
      | transferring transfer =>
          obtain ⟨hfiles, hcleared, htransferring, hrecorded⟩ := h
          simp only [Download.step]
          split
          · exact ⟨hfiles, hcleared, htransferring, hrecorded⟩
          · exact write_sound hcleared htransferring hrecorded hfiles hallowed.1 hallowed.2
      | _ => exact h

theorem initial_sound : Sound remote identity request (Download.initial : Download V ι) where
  files :=
    { backed := fun _ hmetadata => nomatch hmetadata
      published := fun _ hcontent => nomatch hcontent }
  phase := trivial

/-- As long as no complete response is written beside another version's validators, the files are
sound after every run, and a range is accepted only for what was asked for. -/
theorem downloads_sound [DecidableEq ι] (remote : RemoteObject V) (identity : ArtifactIdentity ι)
    (request : DownloadRequest) (events : List (Event V))
    (hruns : Along (Download.step identity request) (Allowed remote) .initial events) :
    FilesSound remote identity request
        (events.foldl (Download.step identity request) .initial).files ∧
      ∀ transfer, (events.foldl (Download.step identity request) .initial).phase =
          .transferring transfer →
        transfer.responseHeadersValid = true → transfer.Ranged request := by
  have hinitial : Sound remote identity request (Download.initial : Download V ι) := initial_sound
  have hsound := hruns.keeps (fun _ _ => step_sound) hinitial
  refine ⟨hsound.files, fun transfer hphase => ?_⟩
  have hstate := hsound.phase
  rw [hphase] at hstate
  exact hstate.2.1.ranged

/-! Two versions of four bytes; the first has a validator and the second has none. -/

def spliceRemote : RemoteObject Bool where
  content version := ⟨4, fun _ => if version then 1 else 2⟩
  etagOwner _ := true
  lastModifiedOwner _ := true

def spliceRequest : DownloadRequest := ⟨"u".toList, 4, 3⟩

/-- A part of the first version, and the run that it comes from ends. -/
def firstAttempt : List (Event Bool) :=
  .start :: List.replicate 10 .advance ++
    [.line "HTTP/1.1 200 OK\r\n".toList, .line "ETag: a\r\n".toList, .endOfHeaders true,
      .body [1, 1], .finished false, .advance]

/-- The rest of what the first validator is of. -/
def lastAttempt : List (Event Bool) :=
  .start :: List.replicate 8 .advance ++
    [.line "HTTP/1.1 206 Partial Content\r\n".toList,
      .line "Content-Range: bytes 2-3/4\r\n".toList, .endOfHeaders true, .body [1, 1],
      .finished true, .advance, .advance, .advance]

/-- In between, a complete response of the second version begins to replace the first one's bytes. -/
def splicedRun : List (Event Bool) :=
  firstAttempt ++ List.replicate 5 .advance ++
    [.line "HTTP/1.1 200 OK\r\n".toList, .endOfHeaders false, .body [2, 2], .stop] ++ lastAttempt

def sizeIdentity : ArtifactIdentity Nat := fun _ size _ _ => size

/-- Every response is honest, and yet what is published is neither version. -/
theorem splicedRun_published :
    Along (Download.step sizeIdentity spliceRequest) (During (Transfer.Honest spliceRemote)) .initial
        splicedRun ∧
      ∃ content,
        (splicedRun.foldl (Download.step sizeIdentity spliceRequest) .initial).files.destination =
          some content ∧
        ∀ version, ¬ content.Same (spliceRemote.content version) := by
  refine ⟨by decide, _, rfl, by decide⟩

/-- Without it, the first version is resumed and published. -/
theorem downloads_sound_resumed :
    FilesSound spliceRemote sizeIdentity spliceRequest
        ((firstAttempt ++ lastAttempt).foldl (Download.step sizeIdentity spliceRequest)
          .initial).files ∧
      ∀ transfer, ((firstAttempt ++ lastAttempt).foldl (Download.step sizeIdentity spliceRequest)
          .initial).phase = .transferring transfer →
        transfer.responseHeadersValid = true → transfer.Ranged spliceRequest :=
  downloads_sound spliceRemote sizeIdentity spliceRequest (firstAttempt ++ lastAttempt) (by decide)

end Mmltk.Benchmark.Ordinary
