import Mathlib.Data.List.Nodup
import Mmltk.Benchmark.SegmentedDownload

namespace Mmltk.Benchmark.Segmented

open Mmltk.Foundation

/-! What holds of a run of ranged requests, whatever order its callbacks come in. -/

/-- The version that ranges are requested of. -/
def RemoteArtifactIdentity.version {V : Type} (remote : RemoteObject V)
    (identity : RemoteArtifactIdentity) : V :=
  remote.ifRange identity.etag identity.lastModified

variable {V ι : Type} {remote : RemoteObject V} {request : DownloadRequest}
  {part : Option ByteContent} {run : Run V} {state : SegmentedDownloadState}
  {transfer : SegmentTransfer V} {segments : List DownloadSegment} {segment : DownloadSegment}
  {content : ByteContent} {version : V} {index : Nat}

/-- The bytes that count as completed are there. -/
def Present (remote : RemoteObject V) (request : DownloadRequest) (version : V)
    (segments : List DownloadSegment) (part : Option ByteContent) : Prop :=
  ∃ content, part = some content ∧ content.size = request.expectedSize ∧
    ∀ segment ∈ segments, content.AgreesOn (remote.content version) segment.start
      (segment.start + segment.completed)

structure Accounts (state : SegmentedDownloadState) : Prop where
  length : state.inFlight.length = state.segments.length
  committed : state.committedBytes = (state.segments.map DownloadSegment.completed).sum
  inFlight : state.inFlightBytes = state.inFlight.sum

structure TransferSound (remote : RemoteObject V) (version : V) (content : ByteContent)
    (state : SegmentedDownloadState) (transfer : SegmentTransfer V) : Prop where
  range : ∃ segment, state.segments[transfer.index]? = some segment ∧
    transfer.rangeBegin = segment.start + segment.completed ∧ transfer.rangeEnd = segment.last
  begun : transfer.rangeBegin ≤ transfer.writeOffset
  within : transfer.writeOffset ≤ transfer.rangeEnd + 1
  counted : ∀ bytes, state.inFlight[transfer.index]? = some bytes → bytes ≤ transfer.transferred
  bytes : content.AgreesOn (remote.content version) transfer.rangeBegin transfer.writeOffset
  following : transfer.responseHeadersValid = true →
    transfer.served = some version ∧ transfer.sent = transfer.writeOffset

structure RunSound (remote : RemoteObject V) (request : DownloadRequest)
    (part : Option ByteContent) (run : Run V) : Prop where
  extent : (remote.content (run.identity.version remote)).size = request.expectedSize
  covers : segmentsCover request.expectedSize 0 run.state.segments = true
  accounts : Accounts run.state
  present : Present remote request (run.identity.version remote) run.state.segments part
  transfers : ∀ content, part = some content → ∀ transfer ∈ run.active,
    TransferSound remote (run.identity.version remote) content run.state transfer
  settled : ∀ index, index ∉ run.active.map SegmentTransfer.index →
    ∀ bytes, run.state.inFlight[index]? = some bytes → bytes = 0
  apart : (run.pending ++ run.active.map SegmentTransfer.index).Nodup
  unfinished : run.failure = none → ∀ index segment, run.state.segments[index]? = some segment →
    segment.completed ≠ segment.extent →
      index ∈ run.pending ∨ index ∈ run.active.map SegmentTransfer.index
  snapshot : ∀ segments, run.snapshot = some segments → segments = run.state.segments

theorem accounts_begin (segments : List DownloadSegment) : Accounts (.begin segments) where
  length := List.length_map _
  committed := rfl
  inFlight := by
    simp only [SegmentedDownloadState.begin]
    induction segments with
    | nil => rfl
    | cons head rest => simp

/-- Where a run starts from, be it a checkpoint or nothing. -/
theorem runSound_begin {identity : RemoteArtifactIdentity}
    (hextent : (remote.content (identity.version remote)).size = request.expectedSize)
    (hcovers : segmentsCover request.expectedSize 0 segments = true)
    (hpresent : Present remote request (identity.version remote) segments part) :
    RunSound remote request part (Run.begin identity segments) where
  extent := hextent
  covers := hcovers
  accounts := accounts_begin segments
  present := hpresent
  transfers _ _ _ htransfer := nomatch htransfer
  settled index _ bytes hbytes := by
    simp only [Run.begin, SegmentedDownloadState.begin, List.getElem?_map,
      Option.map_eq_some_iff] at hbytes
    obtain ⟨-, -, hzero⟩ := hbytes
    exact hzero.symm
  apart := by
    simp only [Run.begin, List.map_nil, List.append_nil]
    exact List.nodup_range.filter _
  unfinished _ index segment hget hunfinished := by
    refine .inl (List.mem_filter.mpr ⟨List.mem_range.mpr ?_, ?_⟩)
    · exact (List.getElem?_eq_some_iff.mp hget).1
    · have hsegment : segments[index]? = some segment := hget
      rw [hsegment]
      simpa using hunfinished
  snapshot segments hsnapshot := by
    cases hsnapshot
    rfl

theorem RunSound.failWith (h : RunSound remote request part run) (unsupported : Bool)
    {pending : List Nat} (hapart : (pending ++ run.active.map SegmentTransfer.index).Nodup) :
    RunSound remote request part (Run.fail { run with pending } unsupported) where
  extent := h.extent
  covers := h.covers
  accounts := h.accounts
  present := h.present
  transfers := h.transfers
  settled := h.settled
  apart := hapart
  unfinished hfailure := by
    cases hbefore : run.failure with
    | none => simp [Run.fail, hbefore] at hfailure
    | some earlier => simp [Run.fail, hbefore] at hfailure
  snapshot := h.snapshot

theorem RunSound.fail (h : RunSound remote request part run) (unsupported : Bool) :
    RunSound remote request part (run.fail unsupported) := h.failWith unsupported h.apart

theorem RunSound.written (h : RunSound remote request part run) :
    RunSound remote request part { run with snapshot := none } where
  extent := h.extent
  covers := h.covers
  accounts := h.accounts
  present := h.present
  transfers := h.transfers
  settled := h.settled
  apart := h.apart
  unfinished := h.unfinished
  snapshot _ hsnapshot := nomatch hsnapshot

/-! The transfers under way: one for each index. -/

theorem RunSound.active_nodup (h : RunSound remote request part run) :
    (run.active.map SegmentTransfer.index).Nodup := (List.nodup_append.mp h.apart).2.1

theorem transfer?_mem (h : run.transfer? index = some transfer) :
    transfer ∈ run.active ∧ transfer.index = index :=
  ⟨List.mem_of_find?_eq_some h, by simpa using List.find?_some h⟩

theorem RunSound.transfer?_eq (h : RunSound remote request part run) (hmem : transfer ∈ run.active) :
    run.transfer? transfer.index = some transfer := by
  cases hfound : run.transfer? transfer.index with
  | none =>
      have hnone := List.find?_eq_none.mp hfound transfer hmem
      simp at hnone
  | some found =>
      obtain ⟨hactive, hindex⟩ := transfer?_mem hfound
      rw [List.inj_on_of_nodup_map h.active_nodup hactive hmem hindex]

@[simp] theorem update_indices (change : SegmentTransfer V → SegmentTransfer V)
    (hchange : ∀ transfer, (change transfer).index = transfer.index) :
    (run.update index change).active.map SegmentTransfer.index =
      run.active.map SegmentTransfer.index := by
  rw [Run.update, List.map_map]
  refine List.map_congr_left fun transfer _ => ?_
  rw [Function.comp_apply]
  split
  · exact hchange transfer
  · rfl

/-- One transfer and the partial file change; the others only see the file. -/
theorem RunSound.update {changed : Option ByteContent}
    {change : SegmentTransfer V → SegmentTransfer V} (h : RunSound remote request part run)
    (hindex : ∀ transfer, (change transfer).index = transfer.index)
    (hpresent : Present remote request (run.identity.version remote) run.state.segments changed)
    (hothers : ∀ content, changed = some content → ∀ transfer ∈ run.active,
      transfer.index ≠ index →
        TransferSound remote (run.identity.version remote) content run.state transfer)
    (hown : ∀ content, changed = some content → ∀ transfer,
      run.transfer? index = some transfer →
        TransferSound remote (run.identity.version remote) content run.state (change transfer)) :
    RunSound remote request changed (run.update index change) where
  extent := h.extent
  covers := h.covers
  accounts := h.accounts
  present := hpresent
  transfers content hcontent transfer htransfer := by
    obtain ⟨before, hbefore, rfl⟩ := List.mem_map.mp htransfer
    split
    next hequal =>
      subst hequal
      exact hown content hcontent before (h.transfer?_eq hbefore)
    next hother => exact hothers content hcontent before hbefore hother
  settled index' hidle := by
    rw [update_indices change hindex] at hidle
    exact h.settled index' hidle
  apart := by
    rw [update_indices change hindex]
    exact h.apart
  unfinished hfailure index' segment hget hunfinished := by
    rw [update_indices change hindex]
    exact h.unfinished hfailure index' segment hget hunfinished
  snapshot := h.snapshot

theorem RunSound.updateOnly {change : SegmentTransfer V → SegmentTransfer V}
    (h : RunSound remote request part run)
    (hindex : ∀ transfer, (change transfer).index = transfer.index)
    (hown : ∀ content transfer, run.transfer? index = some transfer →
      TransferSound remote (run.identity.version remote) content run.state transfer →
        TransferSound remote (run.identity.version remote) content run.state (change transfer)) :
    RunSound remote request part (run.update index change) :=
  h.update hindex h.present
    (fun content hcontent transfer hmem _ => h.transfers content hcontent transfer hmem)
    (fun content hcontent transfer hfound =>
      hown content transfer hfound (h.transfers content hcontent transfer (transfer?_mem hfound).1))

theorem RunSound.withError (h : RunSound remote request part run) (index : Nat) :
    RunSound remote request part
      (run.update index fun transfer => { transfer with callbackError := true }) :=
  h.updateOnly (fun _ => rfl) fun _ _ _ hsound =>
    ⟨hsound.range, hsound.begun, hsound.within, hsound.counted, hsound.bytes, hsound.following⟩

theorem RunSound.line (h : RunSound remote request part run) (index : Nat) (header : Text) :
    RunSound remote request part (run.update index fun transfer => transfer.onHeader header) := by
  have hkept : ∀ transfer : SegmentTransfer V,
      (transfer.onHeader header).index = transfer.index ∧
        (transfer.onHeader header).rangeBegin = transfer.rangeBegin ∧
        (transfer.onHeader header).rangeEnd = transfer.rangeEnd ∧
        (transfer.onHeader header).writeOffset = transfer.writeOffset ∧
        (transfer.onHeader header).served = transfer.served ∧
        (transfer.onHeader header).sent = transfer.sent ∧
        ((transfer.onHeader header).responseHeadersValid = true →
          transfer.responseHeadersValid = true) := by
    intro transfer
    unfold SegmentTransfer.onHeader
    dsimp only
    split
    · exact ⟨rfl, rfl, rfl, rfl, rfl, rfl, fun hvalid => nomatch hvalid⟩
    · exact ⟨rfl, rfl, rfl, rfl, rfl, rfl, id⟩
  refine h.updateOnly (fun transfer => (hkept transfer).1) fun content transfer _ hsound => ?_
  obtain ⟨hindex, hbegin, hend, hoffset, hserved, hsent, hvalid⟩ := hkept transfer
  refine ⟨?_, ?_, ?_, ?_, ?_, ?_⟩
  · rw [hindex, hbegin, hend]
    exact hsound.range
  · rw [hbegin, hoffset]
    exact hsound.begun
  · rw [hend, hoffset]
    exact hsound.within
  · rw [hindex, SegmentTransfer.transferred, hbegin, hoffset]
    exact hsound.counted
  · rw [hbegin, hoffset]
    exact hsound.bytes
  · rw [hserved, hsent, hoffset]
    exact fun hstill => hsound.following (hvalid hstill)

/-- Headers that are accepted are of the version that was asked for, from the range's first byte. -/
theorem RunSound.endOfHeaders {version : V} (h : RunSound remote request part run) (index : Nat)
    (hhonest : ∀ transfer, run.transfer? index = some transfer →
      transfer.writeOffset = transfer.rangeBegin ∧
        (transfer.http.responseCode = 206 →
          transfer.responseIdentityMatches run.identity = true →
            version = run.identity.version remote)) :
    RunSound remote request part
      (run.update index fun transfer =>
        transfer.onEndOfHeaders request run.identity version) := by
  refine h.updateOnly (fun _ => rfl) fun content transfer hfound hsound => ?_
  refine ⟨hsound.range, hsound.begun, hsound.within, hsound.counted, hsound.bytes,
    fun hvalid => ?_⟩
  obtain ⟨hoffset, hversion⟩ := hhonest transfer hfound
  have haccepts : transfer.acceptsHeaders request run.identity = true := hvalid
  simp only [SegmentTransfer.acceptsHeaders, Bool.and_eq_true, decide_eq_true_eq,
    Option.any_eq_true] at haccepts
  obtain ⟨⟨hcode, range, hrange, ⟨⟨-, hstart⟩, -⟩, -⟩, hmatches⟩ := haccepts
  refine ⟨congrArg some (hversion hcode hmatches), ?_⟩
  simp only [SegmentTransfer.onEndOfHeaders, hrange, Option.map_some, Option.getD_some]
  exact hstart.trans hoffset.symm

/-- The write of bytes of the version that is there already. -/
theorem Present.write {chunk : List UInt8} {offset : Nat} {segments : List DownloadSegment}
    {version : V} (h : Present remote request version segments part)
    (hcovers : segmentsCover request.expectedSize 0 segments = true)
    (hsize : (remote.content version).size = request.expectedSize)
    (hchunk : (remote.content version).Holds offset chunk) :
    Present remote request version segments (part.map fun part => part.write offset chunk) := by
  obtain ⟨content, hpart, hextent, hbytes⟩ := h
  refine ⟨content.write offset chunk, by rw [hpart]; rfl, ?_, fun segment hmem => ?_⟩
  · have hbound := hchunk.1
    rw [hsize, ← hextent] at hbound
    exact (Nat.max_eq_left hbound).trans hextent
  · obtain ⟨place, hget⟩ := List.getElem?_of_mem hmem
    obtain ⟨-, hordered, hlast, hcompleted⟩ := segmentsCover_get hcovers hget
    rw [DownloadSegment.extent] at hcompleted
    exact (hbytes segment hmem).write (by omega) hchunk

/-- The bytes of a transfer, after another one's. -/
theorem TransferSound.write {chunk : List UInt8} {offset : Nat} {version : V}
    {content : ByteContent} (h : TransferSound remote version content state transfer)
    (hsize : transfer.writeOffset ≤ content.size)
    (hchunk : (remote.content version).Holds offset chunk) :
    TransferSound remote version (content.write offset chunk) state transfer where
  range := h.range
  begun := h.begun
  within := h.within
  counted := h.counted
  bytes := h.bytes.write hsize hchunk
  following := h.following

theorem TransferSound.bounded {version : V} {content : ByteContent}
    (h : TransferSound remote version content state transfer)
    (hcovers : segmentsCover request.expectedSize 0 state.segments = true) :
    transfer.writeOffset ≤ request.expectedSize := by
  obtain ⟨segment, hget, -, hend⟩ := h.range
  obtain ⟨-, -, hlast, -⟩ := segmentsCover_get hcovers hget
  have hwithin := h.within
  omega

/-- Bytes of a body: they go on where the transfer is, in its own range. -/
theorem RunSound.body {chunk : List UInt8} (h : RunSound remote request part run)
    (hfound : run.transfer? transfer.index = some transfer)
    (hvalid : transfer.responseHeadersValid = true)
    (hfits : chunk.length ≤ transfer.rangeEnd + 1 - transfer.writeOffset)
    (hhonest : ∀ version, transfer.served = some version →
      (remote.content version).Holds transfer.sent chunk) :
    RunSound remote request (part.map fun part => part.write transfer.writeOffset chunk)
      (run.update transfer.index fun transfer =>
        { transfer with
          writeOffset := transfer.writeOffset + chunk.length
          sent := transfer.sent + chunk.length }) := by
  obtain ⟨content, hpart, hextent, -⟩ := h.present
  have hsound := h.transfers content hpart transfer (transfer?_mem hfound).1
  obtain ⟨hserved, hsent⟩ := hsound.following hvalid
  have hchunk : (remote.content (run.identity.version remote)).Holds transfer.writeOffset chunk := by
    rw [← hsent]
    exact hhonest _ hserved
  have hwritten : ∀ written,
      part.map (fun part => part.write transfer.writeOffset chunk) = some written →
        written = content.write transfer.writeOffset chunk := by
    intro written hwritten
    rw [hpart] at hwritten
    cases hwritten
    rfl
  refine h.update (fun _ => rfl) (h.present.write h.covers h.extent hchunk) ?_ ?_
  · intro written hsome other hmem _
    rw [hwritten written hsome]
    have hother := h.transfers content hpart other hmem
    exact hother.write (hextent.symm ▸ hother.bounded h.covers) hchunk
  · intro written hsome own hown
    cases hfound.symm.trans hown
    rw [hwritten written hsome]
    have hbounded := hsound.bounded h.covers
    rw [← hextent] at hbounded
    have hkept := hsound.bytes.write hbounded hchunk
    exact
      { range := hsound.range
        begun := Nat.le_add_right_of_le hsound.begun
        within := by
          have hwithin := hsound.within
          change transfer.writeOffset + chunk.length ≤ transfer.rangeEnd + 1
          omega
        counted := fun bytes hbytes => by
          have hcounted := hsound.counted bytes hbytes
          rw [SegmentTransfer.transferred] at hcounted ⊢
          change bytes ≤ transfer.writeOffset + chunk.length - transfer.rangeBegin
          omega
        bytes := fun position hstart hstop => by
          cases Nat.lt_or_ge position transfer.writeOffset with
          | inl hbefore => exact hkept position hstart hbefore
          | inr hafter => exact ByteContent.write_agrees hchunk position hafter hstop
        following := fun _ => ⟨hserved, congrArg (· + chunk.length) hsent⟩ }

/-! The accounts. -/

theorem Accounts.inFlight_le (h : Accounts state) {bytes : Nat}
    (hget : state.inFlight[index]? = some bytes) : bytes ≤ state.inFlightBytes := by
  have hwithout := sum_set_add 0 hget
  have hsum := h.inFlight
  omega

/-- What is in flight is taken off before it is counted anew. -/
theorem Accounts.reportInFlight (h : Accounts state) (hindex : index < state.segments.length)
    (bytes : Nat) : Accounts (state.reportInFlight index bytes) where
  length := by
    rw [SegmentedDownloadState.reportInFlight, List.length_set]
    exact h.length
  committed := h.committed
  inFlight := by
    have hbound : index < state.inFlight.length := h.length.symm ▸ hindex
    have hget := List.getElem?_eq_getElem hbound
    have htotal := sum_set_add bytes hget
    have hle := h.inFlight_le hget
    have hsum := h.inFlight
    rw [SegmentedDownloadState.reportInFlight, hget, Option.getD_some]
    dsimp only
    omega

/-- The bytes that are counted are at most the artifact's. -/
theorem counted_le {segments : List DownloadSegment} {inFlight : List Nat}
    (hfits : ∀ (index : Nat) (segment : DownloadSegment) (bytes : Nat),
      segments[index]? = some segment → inFlight[index]? = some bytes → segment.completed + bytes ≤ segment.extent)
    (hlength : inFlight.length = segments.length) :
    (segments.map DownloadSegment.completed).sum + inFlight.sum ≤
      (segments.map DownloadSegment.extent).sum := by
  induction segments generalizing inFlight with
  | nil =>
      have hnil := List.length_eq_zero_iff.mp hlength
      simp [hnil]
  | cons segment rest ih =>
      cases inFlight with
      | nil => simp at hlength
      | cons bytes others =>
          have hhead := hfits 0 segment bytes rfl rfl
          have hrest := ih (fun index => hfits (index + 1)) (by simpa using hlength)
          simp only [List.map_cons, List.sum_cons]
          omega

theorem RunSound.counted_le (h : RunSound remote request part run) :
    run.state.committedBytes + run.state.inFlightBytes ≤ request.expectedSize := by
  have hextents := segmentsCover_extents h.covers
  rw [h.accounts.committed, h.accounts.inFlight, ← hextents, Nat.zero_add]
  refine Segmented.counted_le (fun index segment bytes hget hbytes => ?_) h.accounts.length
  obtain ⟨-, -, -, hcompleted⟩ := segmentsCover_get h.covers hget
  cases hactive : run.transfer? index with
  | none =>
      have hidle : index ∉ run.active.map SegmentTransfer.index := by
        rintro hmem
        obtain ⟨transfer, htransfer, rfl⟩ := List.mem_map.mp hmem
        rw [h.transfer?_eq htransfer] at hactive
        cases hactive
      rw [h.settled index hidle bytes hbytes]
      exact hcompleted
  | some transfer =>
      obtain ⟨hmem, rfl⟩ := transfer?_mem hactive
      obtain ⟨content, hpart, -, -⟩ := h.present
      have hsound := h.transfers content hpart transfer hmem
      obtain ⟨own, hown, hbegin, hend⟩ := hsound.range
      cases hown.symm.trans hget
      have hcounted := hsound.counted bytes hbytes
      have hwithin := hsound.within
      rw [SegmentTransfer.transferred] at hcounted
      rw [DownloadSegment.extent] at hcompleted ⊢
      omega

/-- A report of what one transfer has written so far. -/
theorem RunSound.report (h : RunSound remote request part run)
    (hfound : run.transfer? index = some transfer) :
    RunSound remote request part
      { run with state := run.state.reportInFlight index transfer.transferred } := by
  obtain ⟨hmem, rfl⟩ := transfer?_mem hfound
  obtain ⟨content, hpart, -, -⟩ := h.present
  obtain ⟨segment, hget, -, -⟩ := (h.transfers content hpart transfer hmem).range
  have hbound := (List.getElem?_eq_some_iff.mp hget).1
  refine ⟨h.extent, h.covers, h.accounts.reportInFlight hbound _, h.present, ?_, ?_, h.apart,
    h.unfinished, h.snapshot⟩
  · intro content hcontent other hother
    have hsound := h.transfers content hcontent other hother
    refine ⟨hsound.range, hsound.begun, hsound.within, fun bytes hbytes => ?_, hsound.bytes,
      hsound.following⟩
    simp only [SegmentedDownloadState.reportInFlight] at hbytes
    by_cases hsame : other.index = transfer.index
    · rw [List.inj_on_of_nodup_map h.active_nodup hother hmem hsame] at hbytes ⊢
      rw [List.getElem?_set_self (h.accounts.length.symm ▸ hbound)] at hbytes
      exact (Option.some.inj hbytes).ge
    · rw [List.getElem?_set_ne (Ne.symm hsame)] at hbytes
      exact hsound.counted bytes hbytes
  · intro index hidle bytes hbytes
    have hother : transfer.index ≠ index := by
      rintro rfl
      exact hidle (List.mem_map_of_mem hmem)
    simp only [SegmentedDownloadState.reportInFlight, List.getElem?_set_ne hother] at hbytes
    exact h.settled index hidle bytes hbytes

/-! Ranges that are begun and ranges that are over. -/

theorem RunSound.launch (h : RunSound remote request part run) (concurrency index : Nat) :
    RunSound remote request part (run.launch request concurrency index) := by
  unfold Run.launch
  split
  · exact h
  next hallowed =>
  rw [not_or, not_or, not_or, not_not] at hallowed
  have hpending := hallowed.2.2.2
  split
  · exact h
  next segment hget =>
  have hperm := (List.perm_cons_erase hpending).append_right
    (run.active.map SegmentTransfer.index)
  have hapart := hperm.nodup_iff.mp h.apart
  dsimp only
  split
  · exact h.failWith false (List.nodup_cons.mp hapart).2
  next hranged =>
    rw [not_or, Nat.not_lt, Nat.not_lt] at hranged
    have hidle : index ∉ run.active.map SegmentTransfer.index := by
      have hfirst := (List.nodup_cons.mp hapart).1
      exact fun hmem => hfirst (List.mem_append_right _ hmem)
    refine ⟨h.extent, h.covers, h.accounts, h.present, ?_, ?_, ?_, ?_, h.snapshot⟩
    · intro content hcontent other hother
      cases List.mem_cons.mp hother with
      | inl hnew =>
          subst hnew
          exact
            { range := ⟨segment, hget, rfl, rfl⟩
              begun := Nat.le_refl _
              within := Nat.le_succ_of_le hranged.2
              counted := fun bytes hbytes => by
                rw [h.settled index hidle bytes hbytes]
                exact Nat.zero_le _
              bytes := fun position hstart hstop => absurd hstart (Nat.not_le.mpr hstop)
              following := fun hvalid => nomatch hvalid }
      | inr hbefore => exact h.transfers content hcontent other hbefore
    · intro other hother bytes hbytes
      exact h.settled other (fun hmem => hother (List.mem_cons_of_mem _ hmem)) bytes hbytes
    · exact (List.perm_middle.nodup_iff).mpr hapart
    · intro hfailure other found hfound hunfinished
      cases h.unfinished hfailure other found hfound hunfinished with
      | inr hactive => exact .inr (List.mem_cons_of_mem _ hactive)
      | inl hwaiting =>
          by_cases hsame : other = index
          · exact .inr (hsame ▸ List.mem_cons_self)
          · exact .inl ((List.mem_erase_of_ne hsame).mpr hwaiting)

/-- The accounts and the segments after a transfer that is over, which has added `gained` bytes. -/
def SegmentedDownloadState.settled (state : SegmentedDownloadState) (index gained : Nat)
    (changed : DownloadSegment) : SegmentedDownloadState :=
  { state.reportInFlight index 0 with
    segments := state.segments.set index changed
    committedBytes := state.committedBytes + gained }

theorem Accounts.settled (h : Accounts state) {changed : DownloadSegment} {gained : Nat}
    (hget : state.segments[index]? = some segment)
    (hcompleted : changed.completed = segment.completed + gained) :
    Accounts (state.settled index gained changed) := by
  have hbound := (List.getElem?_eq_some_iff.mp hget).1
  have hreported := h.reportInFlight hbound 0
  refine ⟨?_, ?_, hreported.inFlight⟩
  · have hlength := hreported.length
    simp only [SegmentedDownloadState.settled, List.length_set]
    exact hlength
  · have hcount : (state.segments.map DownloadSegment.completed)[index]? =
        some segment.completed := by
      rw [List.getElem?_map, hget]
      rfl
    have htotal := sum_set_add changed.completed hcount
    have hcommitted := h.committed
    simp only [SegmentedDownloadState.settled, List.map_set]
    omega

theorem RunSound.settleWith (h : RunSound remote request part run)
    (hfound : run.transfer? index = some transfer)
    (hget : run.state.segments[index]? = some segment) {changed : DownloadSegment} {gained : Nat}
    {pending : List Nat} {failure : Option Bool} (hstart : changed.start = segment.start)
    (hlast : changed.last = segment.last)
    (hcompleted : changed.completed = segment.completed + gained)
    (hgained : gained ≤ transfer.transferred)
    (hpending : pending = run.pending ∨ pending = index :: run.pending)
    (hunfinished : failure = none → run.failure = none ∧
      (changed.completed ≠ changed.extent → pending = index :: run.pending)) :
    RunSound remote request part
      { run with
        active := run.active.filter fun other => other.index ≠ index
        state := run.state.settled index gained changed
        snapshot := some (run.state.segments.set index changed)
        pending
        failure } := by
  obtain ⟨hmem, rfl⟩ := transfer?_mem hfound
  obtain ⟨content, hpart, hextent, hbytes⟩ := h.present
  have hsound := h.transfers content hpart transfer hmem
  obtain ⟨own, hown, hbegin, hend⟩ := hsound.range
  cases hown.symm.trans hget
  have hbound := (List.getElem?_eq_some_iff.mp hget).1
  have hbegun := hsound.begun
  have hwithin := hsound.within
  rw [SegmentTransfer.transferred] at hgained
  obtain ⟨-, hordered, -, -⟩ := segmentsCover_get h.covers hget
  have hactive : ∀ other, other ∈ (run.active.filter fun other => other.index ≠ transfer.index).map
      SegmentTransfer.index ↔
        other ∈ run.active.map SegmentTransfer.index ∧ other ≠ transfer.index := by
    intro other
    simp only [List.mem_map, List.mem_filter, decide_eq_true_eq]
    constructor
    · rintro ⟨found, ⟨hfound, hne⟩, rfl⟩
      exact ⟨⟨found, hfound, rfl⟩, hne⟩
    · rintro ⟨⟨found, hfound, rfl⟩, hne⟩
      exact ⟨found, ⟨hfound, hne⟩, rfl⟩
  refine ⟨h.extent, ?_, h.accounts.settled hget hcompleted, ⟨content, hpart, hextent, ?_⟩, ?_, ?_, ?_,
    ?_, ?_⟩
  · refine segmentsCover_set h.covers hget hstart hlast ?_
    rw [DownloadSegment.extent]
    omega
  · intro found hfound
    cases List.mem_or_eq_of_mem_set hfound with
    | inl hbefore => exact hbytes found hbefore
    | inr hchanged =>
        subst hchanged
        intro position hafter hbefore
        cases Nat.lt_or_ge position (segment.start + segment.completed) with
        | inl hold =>
            exact hbytes segment (List.mem_of_getElem? hget) position (hstart ▸ hafter) hold
        | inr hnew => exact hsound.bytes position (by omega) (by omega)
  · intro content' hcontent other hother
    rw [List.mem_filter, decide_eq_true_eq] at hother
    obtain ⟨hother, hne⟩ := hother
    have hkept := h.transfers content' hcontent other hother
    refine ⟨?_, hkept.begun, hkept.within, fun bytes hcount => ?_, hkept.bytes, hkept.following⟩
    · obtain ⟨place, hplace, hranges⟩ := hkept.range
      refine ⟨place, ?_, hranges⟩
      exact (List.getElem?_set_ne (Ne.symm hne)).trans hplace
    · refine hkept.counted bytes ?_
      rw [← hcount]
      exact (List.getElem?_set_ne (Ne.symm hne)).symm
  · intro other hidle bytes hcount
    rw [hactive, not_and, not_not] at hidle
    simp only [SegmentedDownloadState.settled, SegmentedDownloadState.reportInFlight] at hcount
    by_cases hsame : other = transfer.index
    · rw [hsame, List.getElem?_set_self (h.accounts.length.symm ▸ hbound)] at hcount
      exact (Option.some.inj hcount).symm
    · rw [List.getElem?_set_ne (Ne.symm hsame)] at hcount
      exact h.settled other (fun hother => hsame (hidle hother)) bytes hcount
  · obtain ⟨hwaiting, hactives, hdisjoint⟩ := List.nodup_append.mp h.apart
    have hactiveKept : ((run.active.filter fun other => other.index ≠ transfer.index).map
        SegmentTransfer.index).Nodup :=
      hactives.sublist (List.filter_sublist.map _)
    have hpendingKept : (run.pending ++ (run.active.filter fun other =>
        other.index ≠ transfer.index).map SegmentTransfer.index).Nodup :=
      List.nodup_append.mpr ⟨hwaiting, hactiveKept, fun first hfirst second hsecond =>
        hdisjoint first hfirst second ((hactive second).mp hsecond).1⟩
    cases hpending with
    | inl hsame => exact hsame ▸ hpendingKept
    | inr hagain =>
        subst hagain
        refine List.nodup_cons.mpr ⟨fun hboth => ?_, hpendingKept⟩
        cases List.mem_append.mp hboth with
        | inl hinPending =>
            exact hdisjoint _ hinPending _ (List.mem_map_of_mem hmem) rfl
        | inr hinActive => exact ((hactive _).mp hinActive).2 rfl
  · intro hfailure other found hfoundAt hopen
    obtain ⟨hbefore, howes⟩ := hunfinished hfailure
    by_cases hsame : other = transfer.index
    · subst hsame
      have hchanged : changed = found := by
        refine Option.some.inj (Eq.trans ?_ hfoundAt)
        exact (List.getElem?_set_self hbound).symm
      subst hchanged
      rw [howes hopen]
      exact .inl List.mem_cons_self
    · have hplace : run.state.segments[other]? = some found :=
        (List.getElem?_set_ne (Ne.symm hsame)).symm.trans hfoundAt
      cases h.unfinished hbefore other found hplace hopen with
      | inl hwaiting =>
          cases hpending with
          | inl hkept => exact .inl (hkept ▸ hwaiting)
          | inr hagain => exact .inl (hagain ▸ List.mem_cons_of_mem _ hwaiting)
      | inr hstill => exact .inr ((hactive other).mpr ⟨hstill, hsame⟩)
  · intro found hsnapshot
    exact (Option.some.inj hsnapshot).symm

/-- A transfer that is sound commits what it has written: the bounds that are checked hold. -/
theorem TransferSound.commits {version : V} {content : ByteContent}
    (h : TransferSound remote version content state transfer)
    (hget : state.segments[transfer.index]? = some segment) :
    state.commitAttempt transfer.index transfer.rangeBegin transfer.transferred transfer.attempt =
      some (state.settled transfer.index transfer.transferred
        { segment with
          completed := segment.completed + transfer.transferred
          attempts := max segment.attempts transfer.attempt }) := by
  obtain ⟨own, hown, hbegin, hend⟩ := h.range
  cases hown.symm.trans hget
  have hbegun := h.begun
  have hwithin := h.within
  rw [SegmentedDownloadState.commitAttempt, hget]
  dsimp only [Option.bind_some]
  rw [if_neg]
  · rfl
  · rw [not_or, not_not, Nat.not_lt, SegmentTransfer.transferred]
    exact ⟨hbegin, by omega⟩

/-- A transfer that is over counts once, and its range is pending again unless it is all there. -/
theorem RunSound.settle (h : RunSound remote request part run) (index : Nat) (ok : Bool) :
    RunSound remote request part (run.settle request index ok) := by
  unfold Run.settle
  split
  · exact h
  next transfer hfound =>
  split
  · exact h
  obtain ⟨hmem, rfl⟩ := transfer?_mem hfound
  obtain ⟨content, hpart, -, -⟩ := h.present
  have hsound := h.transfers content hpart transfer hmem
  obtain ⟨segment, hget, hbegin, hend⟩ := hsound.range
  have hbegun := hsound.begun
  obtain ⟨-, hordered, -, -⟩ := segmentsCover_get h.covers hget
  have howes : ∀ {finished : Prop}, (transfer.complete ok = true → finished) →
      (run.failure <|> Run.verdict request transfer ok) = none →
        run.failure = none ∧ (¬ finished →
          (if transfer.complete ok = true ∨ (Run.verdict request transfer ok).isSome then run.pending
            else transfer.index :: run.pending) = transfer.index :: run.pending) := by
    intro finished hfinished hfailure
    have hfailure : run.failure = none ∧ Run.verdict request transfer ok = none := by
      cases hbefore : run.failure with
      | none =>
          rw [hbefore] at hfailure
          exact ⟨rfl, hfailure⟩
      | some earlier =>
          rw [hbefore] at hfailure
          cases hfailure
    refine ⟨hfailure.1, fun hopen => if_neg ?_⟩
    rw [hfailure.2]
    rintro (hcomplete | hfailed)
    · exact hopen (hfinished hcomplete)
    · cases hfailed
  have hpending : ∀ {complete : Prop} [Decidable complete],
      (if complete then run.pending else transfer.index :: run.pending) = run.pending ∨
        (if complete then run.pending else transfer.index :: run.pending) =
          transfer.index :: run.pending := by
    intro complete _
    split
    · exact .inl rfl
    · exact .inr rfl
  cases hvalid : transfer.responseHeadersValid with
  | true =>
      rw [if_pos rfl, hsound.commits hget]
      refine h.settleWith hfound hget rfl rfl rfl (Nat.le_refl _) hpending (howes fun hcomplete => ?_)
      simp only [SegmentTransfer.complete, Bool.and_eq_true, decide_eq_true_eq] at hcomplete
      rw [SegmentTransfer.transferred, DownloadSegment.extent]
      dsimp only
      omega
  | false =>
      have habandons : run.state.abandonAttempt transfer.index transfer.attempt =
          some (run.state.settled transfer.index 0
            { segment with attempts := max segment.attempts transfer.attempt }) := by
        rw [SegmentedDownloadState.abandonAttempt, hget]
        rfl
      rw [if_neg (Bool.false_ne_true), habandons]
      refine h.settleWith hfound hget rfl rfl rfl (Nat.zero_le _) hpending (howes fun hcomplete => ?_)
      simp [SegmentTransfer.complete, hvalid] at hcomplete

end Mmltk.Benchmark.Segmented
