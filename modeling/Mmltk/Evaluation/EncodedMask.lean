import Mathlib.Data.Nat.Bitwise
import Mmltk.Foundation.OrderedIntervals

namespace Mmltk.Evaluation

open Mmltk.Foundation

/-! Bitmaps as runs of foreground pixels, read from packed bytes in words of 64 bits, and the
pixels two masks have in common. -/

def maximumPredictionEncodedBytes : Nat := 2 ^ 30

def maximumPredictionMaskRuns : Nat := maximumPredictionEncodedBytes / 22

def maximumEncodedMaskPixels : Nat := 2 ^ 32 - 1

def checkedPredictionExtent (count stride maximum : Nat) : Except String Nat :=
  if count = 0 ∨ stride = 0 ∨ maximum / stride < count then
    .error "RF-DETR prediction extent exceeds supported storage"
  else .ok (count * stride)

/-- `static_cast<std::uint32_t>` -/
def word32 (value : Nat) : Nat := value % 2 ^ 32

/-- A run is its start and its length. -/
structure EncodedMask where
  height : Nat
  width : Nat
  area : Nat
  runs : List (Nat × Nat)
  deriving DecidableEq, Repr

/-- What is thrown, and the mask as it is left. -/
structure EncodeFailure where
  message : String
  mask : EncodedMask
  deriving DecidableEq, Repr

namespace EncodedMask

def reset (height width : Nat) : EncodedMask := ⟨height, width, 0, []⟩

def capacityMessage : String := "RF-DETR encoded masks exceed aggregate storage capacity"

def appendRun (mask : EncodedMask) (start length maximumRuns : Nat) :
    Except EncodeFailure EncodedMask :=
  if mask.runs.length = maximumRuns then .error ⟨capacityMessage, mask⟩
  else .ok { mask with runs := mask.runs ++ [(start, length)] }

/-- `std::countr_one` and `std::countr_zero`: how many of the lowest bits are this one. -/
def countr (bit : Bool) : Nat → Nat → Nat
  | 0, _ => 0
  | width + 1, word => if word.testBit 0 = bit then countr bit width (word / 2) + 1 else 0

/-- The bytes copied to the front of a word, the first of them the lowest. -/
def loadBytes (data : Nat → UInt8) (first : Nat) : Nat → Nat
  | 0 => 0
  | count + 1 => 2 ^ 8 * loadBytes data (first + 1) count + (data first).toNat

/-- The word at `base`, with `valid` of its bits inside the bitmap. -/
def loadWord (data : Nat → UInt8) (base valid : Nat) : Nat :=
  loadBytes data (base / 8) ((valid + 7) / 8)

structure ScanState where
  mask : EncodedMask
  runStart : Nat
  runLength : Nat

/-- A run that is open is appended. -/
def flush (state : ScanState) (maximumRuns : Nat) : Except EncodeFailure ScanState :=
  if state.runLength ≠ 0 then
    match state.mask.appendRun (word32 state.runStart) (word32 state.runLength) maximumRuns with
    | .error failure => .error failure
    | .ok mask => .ok { state with mask := mask, runLength := 0 }
  else .ok state

/-- `length` bits of one kind from `position` on. -/
def takeBits (state : ScanState) (foreground : Bool) (position length maximumRuns : Nat) :
    Except EncodeFailure ScanState :=
  if foreground then
    .ok {
      mask := { state.mask with area := word32 (state.mask.area + word32 length) }
      runStart := if state.runLength = 0 then position else state.runStart
      runLength := state.runLength + length }
  else flush state maximumRuns

/-- The loop over a word, which has no more turns than bits. -/
def scanWord (maximumRuns base valid : Nat) :
    Nat → Nat → Nat → ScanState → Except EncodeFailure ScanState
  | 0, _, _, state => .ok state
  | turns + 1, word, offset, state =>
      if offset < valid then
        let foreground := word.testBit 0
        let length := min (valid - offset) (countr foreground 64 word)
        match takeBits state foreground (base + offset) length maximumRuns with
        | .error failure => .error failure
        | .ok next =>
            -- a shift by all 64 bits is none
            scanWord maximumRuns base valid turns (if length < 64 then word >>> length else word)
              (offset + length) next
      else .ok state

def scanWords (data : Nat → UInt8) (maximumRuns pixels : Nat) :
    Nat → Nat → ScanState → Except EncodeFailure ScanState
  | 0, _, state => .ok state
  | turns + 1, base, state =>
      if base < pixels then
        let valid := min 64 (pixels - base)
        match scanWord maximumRuns base valid valid (loadWord data base valid) 0 state with
        | .error failure => .error failure
        | .ok next => scanWords data maximumRuns pixels turns (base + 64) next
      else .ok state

/-- `encode_mask_from_packed_data_into` -/
def encodeMaskFromPackedDataInto (data : Nat → UInt8) (height width maximumRuns : Nat) :
    Except EncodeFailure EncodedMask :=
  let mask := reset height width
  if width = 0 ∨ height = 0 then .ok mask
  else
    match checkedPredictionExtent width height maximumEncodedMaskPixels with
    | .error message => .error ⟨message, mask⟩
    | .ok pixels =>
        let maximumRuns := min maximumRuns maximumPredictionMaskRuns
        match scanWords data maximumRuns pixels (pixels / 64 + 1) 0 ⟨mask, 0, 0⟩ with
        | .error failure => .error failure
        | .ok state =>
            match flush state maximumRuns with
            | .error failure => .error failure
            | .ok state => .ok state.mask

/-- The loop of `intersection_area_runs`, in unsigned 32-bit arithmetic. -/
def intersectionAreaFrom (total : Nat) : List (Nat × Nat) → List (Nat × Nat) → Nat
  | [], _ => total
  | _ :: _, [] => total
  | left :: lefts, right :: rights =>
      let leftEnd := word32 (left.1 + left.2)
      let rightEnd := word32 (right.1 + right.2)
      let overlapStart := max left.1 right.1
      let overlapEnd := min leftEnd rightEnd
      let total :=
        if overlapStart < overlapEnd then word32 (total + (overlapEnd - overlapStart)) else total
      if leftEnd ≤ rightEnd then intersectionAreaFrom total lefts (right :: rights)
      else intersectionAreaFrom total (left :: lefts) rights
  termination_by lefts rights => lefts.length + rights.length

/-- `intersection_area_runs` -/
def intersectionAreaRuns (lefts rights : List (Nat × Nat)) : Nat :=
  intersectionAreaFrom 0 lefts rights

/-! ### The bits of a word -/

/-- The pixel in the bitmap: the lowest bit of a byte comes first. -/
def pixelBit (data : Nat → UInt8) (pixel : Nat) : Bool :=
  (data (pixel / 8)).toNat.testBit (pixel % 8)

theorem testBit_of_lt_countr {bit : Bool} {width word index : Nat}
    (h : index < countr bit width word) : word.testBit index = bit := by
  induction width generalizing word index with
  | zero => exact absurd h (Nat.not_lt_zero _)
  | succ width ih =>
      rw [countr] at h
      split at h
      next hlow =>
        cases index with
        | zero => exact hlow
        | succ index =>
            rw [Nat.testBit_succ]
            exact ih (Nat.lt_of_succ_lt_succ h)
      next => exact absurd h (Nat.not_lt_zero _)

theorem countr_pos (width word : Nat) : 0 < countr (word.testBit 0) (width + 1) word := by
  rw [countr, if_pos rfl]
  exact Nat.succ_pos _

theorem testBit_loadBytes (data : Nat → UInt8) (first : Nat) {count index : Nat}
    (h : index < 8 * count) :
    (loadBytes data first count).testBit index =
      (data (first + index / 8)).toNat.testBit (index % 8) := by
  induction count generalizing first index with
  | zero => omega
  | succ count ih =>
      rw [loadBytes, Nat.testBit_two_pow_mul_add _ (data first).toNat_lt]
      split
      next hlow => rw [Nat.div_eq_of_lt hlow, Nat.mod_eq_of_lt hlow, Nat.add_zero]
      next hhigh =>
        have hindex : first + 1 + (index - 8) / 8 = first + index / 8 := by omega
        have hplace : (index - 8) % 8 = index % 8 := by omega
        rw [ih (first + 1) (by omega), hindex, hplace]

theorem testBit_loadWord (data : Nat → UInt8) {base valid index : Nat} (hbase : 8 ∣ base)
    (h : index < valid) :
    (loadWord data base valid).testBit index = pixelBit data (base + index) := by
  obtain ⟨byte, rfl⟩ := hbase
  have hbyte : 8 * byte / 8 + index / 8 = (8 * byte + index) / 8 := by omega
  have hplace : index % 8 = (8 * byte + index) % 8 := by omega
  rw [loadWord, testBit_loadBytes data _ (by omega), pixelBit, hbyte, hplace]

/-! ### Counting below a position -/

def countBelow (marked : Nat → Bool) (position : Nat) : Nat :=
  (List.range position).countP marked

section Counting

variable {marked : Nat → Bool} {position length : Nat}

theorem countBelow_add (marked : Nat → Bool) (position length : Nat) :
    countBelow marked (position + length) =
      countBelow marked position + countBelow (fun index => marked (position + index)) length := by
  rw [countBelow, List.range_add, List.countP_append, List.countP_map]
  rfl

theorem countBelow_le (marked : Nat → Bool) {position later : Nat} (h : position ≤ later) :
    countBelow marked position ≤ countBelow marked later := by
  obtain ⟨length, rfl⟩ := Nat.exists_eq_add_of_le h
  rw [countBelow_add]
  exact Nat.le_add_right _ _

theorem countBelow_le_self (marked : Nat → Bool) (position : Nat) :
    countBelow marked position ≤ position :=
  List.countP_le_length.trans_eq List.length_range

theorem countBelow_all (h : ∀ index < length, marked (position + index) = true) :
    countBelow marked (position + length) = countBelow marked position + length := by
  have hall : countBelow (fun index => marked (position + index)) length = length := by
    rw [countBelow, List.countP_eq_length.mpr fun index hindex => h index (List.mem_range.mp hindex),
      List.length_range]
  rw [countBelow_add, hall]

theorem countBelow_none (h : ∀ index < length, marked (position + index) = false) :
    countBelow marked (position + length) = countBelow marked position := by
  have hnone : countBelow (fun index => marked (position + index)) length = 0 :=
    List.countP_eq_zero.mpr fun index hindex =>
      Bool.not_eq_true _ ▸ h index (List.mem_range.mp hindex)
  rw [countBelow_add, hnone, Nat.add_zero]

end Counting

/-- The first pixel of a maximal run. -/
def runStarts (bit : Nat → Bool) (pixel : Nat) : Bool :=
  bit pixel && (pixel == 0 || !bit (pixel - 1))

section Starts

variable {bit : Nat → Bool} {position length : Nat}

theorem runStarts_later (h : ∀ index < length, bit (position + index) = true) (index : Nat)
    (hindex : index + 1 < length) : runStarts bit (position + 1 + index) = false := by
  have hbefore : bit (position + 1 + index - 1) = true := by
    rw [Nat.add_right_comm, Nat.add_sub_cancel]
    exact h index (by omega)
  have hlater : position + 1 + index ≠ 0 := by omega
  rw [runStarts, hbefore, beq_false_of_ne hlater]
  simp only [Bool.not_true, Bool.or_false, Bool.and_false]

/-- Foreground pixels are at most one run more. -/
theorem countStarts_foreground (hlength : 0 < length)
    (h : ∀ index < length, bit (position + index) = true) :
    countBelow (runStarts bit) (position + length) =
      countBelow (runStarts bit) position +
        if position = 0 ∨ bit (position - 1) = false then 1 else 0 := by
  obtain ⟨rest, rfl⟩ := Nat.exists_eq_add_of_le' hlength
  have hrest : countBelow (runStarts bit) (position + 1 + rest) =
      countBelow (runStarts bit) (position + 1) :=
    countBelow_none fun index hindex => runStarts_later h index (Nat.succ_lt_succ hindex)
  have hfirst : bit position = true := h 0 (Nat.succ_pos rest)
  rw [Nat.add_comm rest 1, ← Nat.add_assoc, hrest, countBelow_add]
  refine congrArg _ ?_
  change [0].countP (fun index => runStarts bit (position + index)) = _
  rw [List.countP_singleton, Nat.add_zero, runStarts, hfirst]
  simp only [Bool.true_and, Bool.or_eq_true, beq_iff_eq, Bool.not_eq_true']

theorem countStarts_background (h : ∀ index < length, bit (position + index) = false) :
    countBelow (runStarts bit) (position + length) = countBelow (runStarts bit) position :=
  countBelow_none fun index hindex => by rw [runStarts, h index hindex, Bool.false_and]

end Starts

/-! ### The scan -/

def runIntervals (runs : List (Nat × Nat)) : List Interval :=
  runs.map fun run => (run.1, run.1 + run.2)

@[simp] theorem runIntervals_concat (runs : List (Nat × Nat)) (run : Nat × Nat) :
    runIntervals (runs ++ [run]) = runIntervals runs ++ [(run.1, run.1 + run.2)] :=
  List.map_append

/-- The runs found so far, the open one among them. -/
def found (state : ScanState) : List Interval :=
  runIntervals state.mask.runs ++
    if state.runLength = 0 then [] else [(state.runStart, state.runStart + state.runLength)]

/-- The pixels below `position` have been read: their maximal runs are those found, an open one
reaches the position, and an appended one ends before it. -/
structure Scanned (bit : Nat → Bool) (maximumRuns position : Nat) (state : ScanState) : Prop where
  separated : Separated 1 (found state)
  covered : ∀ pixel, Covered (found state) pixel ↔ pixel < position ∧ bit pixel = true
  reaches : state.runLength ≠ 0 → state.runStart + state.runLength = position
  closed : state.runLength = 0 → ∀ interval ∈ runIntervals state.mask.runs, interval.2 < position
  area : state.mask.area = countBelow bit position
  count : (found state).length = countBelow (runStarts bit) position
  runs_le : state.mask.runs.length ≤ maximumRuns

section Scan

variable {bit : Nat → Bool} {maximumRuns position length : Nat} {state next : ScanState}

theorem found_open (h : state.runLength ≠ 0) :
    found state = runIntervals state.mask.runs ++
      [(state.runStart, state.runStart + state.runLength)] := by
  rw [found, if_neg h]

theorem found_closed (h : state.runLength = 0) : found state = runIntervals state.mask.runs := by
  rw [found, if_pos h, List.append_nil]

/-- Whether a run is open is the bit before the position. -/
theorem Scanned.open_iff (h : Scanned bit maximumRuns position state) :
    state.runLength = 0 ↔ position = 0 ∨ bit (position - 1) = false := by
  constructor
  · intro hclosed
    by_contra hbefore
    obtain ⟨hpos, hbit⟩ := not_or.mp hbefore
    rw [Bool.not_eq_false] at hbit
    have hcovered := (h.covered (position - 1)).mpr ⟨by omega, hbit⟩
    rw [found_closed hclosed] at hcovered
    obtain ⟨interval, hmem, hin⟩ := hcovered
    have hend := h.closed hclosed interval hmem
    omega
  · intro hbefore
    by_contra hopen
    have hreaches := h.reaches hopen
    have hcovered : Covered (found state) (position - 1) := by
      rw [found_open hopen]
      exact covered_concat.mpr (.inr ⟨by omega, by omega⟩)
    obtain ⟨hless, hbit⟩ := (h.covered _).mp hcovered
    rcases hbefore with hzero | hclear
    · omega
    · exact Bool.false_ne_true (hclear.symm.trans hbit)

/-- A stretch of foreground opens a run or lengthens the open one. -/
theorem Scanned.foreground (h : Scanned bit maximumRuns position state) (hlength : 0 < length)
    (hbits : ∀ index < length, bit (position + index) = true)
    (hend : position + length < 2 ^ 32) :
    Scanned bit maximumRuns (position + length) {
      mask := { state.mask with area := word32 (state.mask.area + word32 length) }
      runStart := if state.runLength = 0 then position else state.runStart
      runLength := state.runLength + length } := by
  have hcover : ∀ pixel, (pixel < position ∧ bit pixel = true) ∨
      (position ≤ pixel ∧ pixel < position + length) ↔
        pixel < position + length ∧ bit pixel = true := by
    intro pixel
    constructor
    · rintro (⟨hless, hbit⟩ | ⟨hge, hless⟩)
      · exact ⟨by omega, hbit⟩
      · have hbit := hbits (pixel - position) (by omega)
        rw [Nat.add_sub_cancel' hge] at hbit
        exact ⟨hless, hbit⟩
    · rintro ⟨hless, hbit⟩
      exact (Nat.lt_or_ge pixel position).imp (⟨·, hbit⟩) (⟨·, hless⟩)
  have hstate : found {
      mask := { state.mask with area := word32 (state.mask.area + word32 length) }
      runStart := if state.runLength = 0 then position else state.runStart
      runLength := state.runLength + length } = runIntervals state.mask.runs ++
        [(if state.runLength = 0 then position else state.runStart, position + length)] := by
    refine (found_open (by dsimp only; omega)).trans ?_
    dsimp only
    split
    next hclosed => rw [hclosed, Nat.zero_add]
    next hopen => rw [← Nat.add_assoc, h.reaches hopen]
  have hstarts := countStarts_foreground hlength hbits
  have hseparated := h.separated
  have hcovered := h.covered
  have hcount := h.count
  have hle := countBelow_le_self bit (position + length)
  have hall := countBelow_all hbits
  refine ⟨?_, fun pixel => ?_, fun _ => ?_, fun hzero => ?_, ?_, ?_, h.runs_le⟩
  · rw [hstate]
    split
    next hclosed =>
      rw [found_closed hclosed] at hseparated
      exact hseparated.concat (Nat.lt_add_of_pos_right hlength) (h.closed hclosed)
    next hopen =>
      rw [found_open hopen, h.reaches hopen] at hseparated
      exact hseparated.widen (Nat.le_add_right _ _)
  · rw [hstate, ← hcover]
    split
    next hclosed =>
      rw [covered_concat, ← hcovered, found_closed hclosed]
    next hopen =>
      have hreaches := h.reaches hopen
      rw [covered_widen (by omega) (Nat.le_add_right position length), ← hcovered,
        found_open hopen, hreaches]
  · dsimp only
    split
    next hclosed => rw [hclosed, Nat.zero_add]
    next hopen => rw [← Nat.add_assoc, h.reaches hopen]
  · exact absurd hzero (by dsimp only; omega)
  · dsimp only
    rw [h.area, word32, word32, Nat.mod_eq_of_lt (by omega), Nat.mod_eq_of_lt (by omega), hall]
  · rw [hstate, hstarts, List.length_append, List.length_singleton, ← hcount]
    simp only [← h.open_iff]
    split
    next hclosed => rw [found_closed hclosed]
    next hopen => rw [found_open hopen, List.length_append, List.length_singleton, Nat.add_zero]

/-- An appended run leaves the runs found as they are; there is no room exactly when one more was
found than is admitted. -/
theorem flush_spec (h : Scanned bit maximumRuns position state) (hend : position < 2 ^ 32) :
    match flush state maximumRuns with
    | .ok next => next.runLength = 0 ∧ found next = found state ∧ next.mask.area = state.mask.area ∧
        next.mask.runs.length ≤ maximumRuns
    | .error failure => failure.message = capacityMessage ∧
        maximumRuns < countBelow (runStarts bit) position := by
  have hcount := h.count
  rw [flush, appendRun]
  by_cases hopen : state.runLength ≠ 0
  · have hreaches := h.reaches hopen
    have hstart : word32 state.runStart = state.runStart := Nat.mod_eq_of_lt (by omega)
    have hlength : word32 state.runLength = state.runLength := Nat.mod_eq_of_lt (by omega)
    have hmore : (found state).length = state.mask.runs.length + 1 := by
      rw [found_open hopen, List.length_append, List.length_singleton, runIntervals, List.length_map]
    rw [if_pos hopen, hstart, hlength]
    by_cases hfull : state.mask.runs.length = maximumRuns
    · rw [if_pos hfull]
      exact ⟨rfl, by omega⟩
    · have hle := h.runs_le
      rw [if_neg hfull]
      refine ⟨rfl, ?_, rfl, ?_⟩
      · rw [found_open hopen, found_closed rfl, runIntervals_concat]
      · dsimp only
        rw [List.length_append, List.length_singleton]
        omega
  · rw [if_neg hopen]
    exact ⟨not_not.mp hopen, rfl, rfl, h.runs_le⟩

/-- A stretch of background closes the open run. -/
theorem Scanned.background (h : Scanned bit maximumRuns position state) (hlength : 0 < length)
    (hbits : ∀ index < length, bit (position + index) = false) (hend : position < 2 ^ 32) :
    match flush state maximumRuns with
    | .ok next => Scanned bit maximumRuns (position + length) next
    | .error failure => failure.message = capacityMessage ∧
        maximumRuns < countBelow (runStarts bit) position := by
  have hflush := flush_spec h hend
  split
  next next hnext =>
    rw [hnext] at hflush
    obtain ⟨hclosed, hfound, harea, hruns⟩ := hflush
    have hends : ∀ interval ∈ found state, interval.2 ≤ position :=
      (Ordered.of_separated h.separated).end_le fun pixel hcovered => ((h.covered pixel).mp hcovered).1
    refine ⟨hfound ▸ h.separated, fun pixel => ?_, fun hopen => absurd hclosed hopen,
      fun _ interval hmem => ?_, ?_, ?_, hruns⟩
    · rw [hfound, h.covered]
      constructor
      · exact fun ⟨hless, hbit⟩ => ⟨by omega, hbit⟩
      · rintro ⟨hless, hbit⟩
        refine ⟨?_, hbit⟩
        by_contra hge
        have hclear := hbits (pixel - position) (by omega)
        rw [Nat.add_sub_cancel' (Nat.not_lt.mp hge), hbit] at hclear
        cases hclear
    · rw [← found_closed hclosed, hfound] at hmem
      have hle := hends interval hmem
      omega
    · rw [harea, h.area, countBelow_none hbits]
    · rw [hfound, h.count, countStarts_background hbits]
  next failure hfailure =>
    rw [hfailure] at hflush
    exact hflush

/-- How a scan ends: with what lies before the position read, or with more runs than admitted. -/
def Ended (bit : Nat → Bool) (maximumRuns position pixels : Nat) :
    Except EncodeFailure ScanState → Prop
  | .ok next => Scanned bit maximumRuns position next
  | .error failure => failure.message = capacityMessage ∧
      maximumRuns < countBelow (runStarts bit) pixels

theorem takeBits_ended {pixels : Nat} {foreground : Bool}
    (h : Scanned bit maximumRuns position state) (hlength : 0 < length)
    (hbits : ∀ index < length, bit (position + index) = foreground)
    (hpixels : position + length ≤ pixels) (hlimit : pixels < 2 ^ 32) :
    Ended bit maximumRuns (position + length) pixels
      (takeBits state foreground position length maximumRuns) := by
  cases foreground with
  | true => exact h.foreground hlength hbits (by omega)
  | false =>
      have hflush := h.background hlength hbits (by omega)
      change Ended _ _ _ _ (flush state maximumRuns)
      split at hflush
      next next hnext =>
        rw [hnext]
        exact hflush
      next failure hfailure =>
        rw [hfailure]
        exact ⟨hflush.1, hflush.2.trans_le (countBelow_le _ (by omega))⟩

/-- The bits of a word are taken a stretch at a time, each by the count of its lowest bits. -/
theorem scanWord_ended {base valid pixels turns word offset : Nat}
    (h : Scanned bit maximumRuns (base + offset) state) (hoffset : offset ≤ valid)
    (hturns : valid - offset ≤ turns)
    (hbits : ∀ index < valid - offset, word.testBit index = bit (base + offset + index))
    (hvalid : valid ≤ 64) (hpixels : base + valid ≤ pixels) (hlimit : pixels < 2 ^ 32) :
    Ended bit maximumRuns (base + valid) pixels
      (scanWord maximumRuns base valid turns word offset state) := by
  induction turns generalizing word offset state with
  | zero =>
      obtain rfl : offset = valid := by omega
      exact h
  | succ turns ih =>
      rw [scanWord]
      split
      next hless =>
        dsimp only
        generalize hlength : min (valid - offset) (countr (word.testBit 0) 64 word) = length
        have hpos : 0 < length := by
          have hcount : 0 < countr (word.testBit 0) 64 word := countr_pos 63 word
          omega
        have hstretch : ∀ index < length, bit (base + offset + index) = word.testBit 0 := by
          intro index hindex
          rw [← hbits index (by omega)]
          exact testBit_of_lt_countr (Nat.lt_of_lt_of_le hindex (hlength ▸ Nat.min_le_right _ _))
        have htaken := takeBits_ended h hpos hstretch (by omega) hlimit
        rw [Nat.add_assoc] at htaken
        split
        next failure hfailure =>
          rw [hfailure] at htaken
          exact htaken
        next next hnext =>
          rw [hnext] at htaken
          refine ih htaken (by omega) (by omega) fun index hindex => ?_
          rw [if_pos (by omega), Nat.testBit_shiftRight, hbits _ (by omega)]
          congr 1
          omega
      next hend =>
        obtain rfl : offset = valid := by omega
        exact h

theorem scanWords_ended {data : Nat → UInt8} {pixels turns base : Nat}
    (h : Scanned (pixelBit data) maximumRuns (min base pixels) state) (hbase : 64 ∣ base)
    (hturns : pixels < base + 64 * turns) (hlimit : pixels < 2 ^ 32) :
    Ended (pixelBit data) maximumRuns pixels pixels
      (scanWords data maximumRuns pixels turns base state) := by
  induction turns generalizing base state with
  | zero =>
      rw [Nat.min_eq_right (by omega)] at h
      exact h
  | succ turns ih =>
      rw [scanWords]
      split
      next hless =>
        dsimp only
        generalize hvalid : min 64 (pixels - base) = valid
        rw [Nat.min_eq_left hless.le] at h
        have hbyte : 8 ∣ base := Nat.dvd_trans (by decide) hbase
        have hword : Ended (pixelBit data) maximumRuns (base + valid) pixels
            (scanWord maximumRuns base valid valid (loadWord data base valid) 0 state) := by
          refine scanWord_ended h (Nat.zero_le _) (Nat.sub_le _ _) (fun index hindex => ?_)
            (by omega) (by omega) hlimit
          exact testBit_loadWord data hbyte hindex
        have hnext : base + valid = min (base + 64) pixels := by omega
        rw [hnext] at hword
        split
        next failure hfailure =>
          rw [hfailure] at hword
          exact hword
        next next hok =>
          rw [hok] at hword
          exact ih hword ((Nat.dvd_add_right hbase).mpr (Nat.dvd_refl _)) (by omega)
      next hend =>
        rw [Nat.min_eq_right (by omega)] at h
        exact h

theorem scanned_start (bit : Nat → Bool) (maximumRuns height width : Nat) :
    Scanned bit maximumRuns 0 ⟨reset height width, 0, 0⟩ where
  separated := .nil
  covered _ := iff_of_false covered_nil fun h => Nat.not_lt_zero _ h.1
  reaches := fun h => absurd rfl h
  closed _ := List.forall_mem_nil _
  area := rfl
  count := rfl
  runs_le := Nat.zero_le _

end Scan

/-- The mask is this bitmap: its runs are the maximal ones, in order, and the area is that of their
pixels. -/
structure Encodes (bit : Nat → Bool) (height width : Nat) (mask : EncodedMask) : Prop where
  height_eq : mask.height = height
  width_eq : mask.width = width
  separated : Separated 1 (runIntervals mask.runs)
  covered : ∀ pixel, Covered (runIntervals mask.runs) pixel ↔
    pixel < width * height ∧ bit pixel = true
  area : mask.area = countBelow bit (width * height)
  count : mask.runs.length = countBelow (runStarts bit) (width * height)

/-- Only the bits of the bitmap count, and they fix the mask. -/
theorem Encodes.unique {bit other : Nat → Bool} {height width : Nat} {mask mask' : EncodedMask}
    (h : Encodes bit height width mask) (h' : Encodes other height width mask')
    (hsame : ∀ pixel < width * height, other pixel = bit pixel) : mask' = mask := by
  have hintervals : runIntervals mask'.runs = runIntervals mask.runs :=
    h'.separated.ext h.separated fun pixel => by
      rw [h'.covered, h.covered]
      exact and_congr_right fun hpixel => by rw [hsame pixel hpixel]
  have hinjective : Function.Injective fun run : Nat × Nat => (run.1, run.1 + run.2) := by
    intro run run' heq
    obtain ⟨hstart, hend⟩ := Prod.mk.inj heq
    exact Prod.ext hstart (by omega)
  have hruns : mask'.runs = mask.runs := List.map_injective_iff.mpr hinjective hintervals
  have harea : mask'.area = mask.area := by
    rw [h'.area, h.area]
    exact List.countP_congr fun pixel hpixel => by rw [hsame pixel (List.mem_range.mp hpixel)]
  cases mask
  cases mask'
  obtain rfl : _ = height := h.height_eq
  obtain rfl : _ = width := h.width_eq
  obtain rfl := h'.height_eq
  obtain rfl := h'.width_eq
  cases hruns
  cases harea
  rfl

theorem countBelow_congr {marked other : Nat → Bool} {position : Nat}
    (h : ∀ index < position, other index = marked index) :
    countBelow (runStarts other) position = countBelow (runStarts marked) position :=
  List.countP_congr fun pixel hpixel => by
    have hpixel := List.mem_range.mp hpixel
    rw [runStarts, runStarts, h pixel hpixel, h (pixel - 1) (by omega)]

theorem checkedPredictionExtent_ok {count stride maximum : Nat} (hcount : count ≠ 0)
    (hstride : stride ≠ 0) (h : count * stride ≤ maximum) :
    checkedPredictionExtent count stride maximum = .ok (count * stride) := by
  refine if_neg ?_
  rw [not_or, not_or, Nat.not_lt]
  exact ⟨hcount, hstride, (Nat.le_div_iff_mul_le (Nat.pos_of_ne_zero hstride)).mpr h⟩

theorem checkedPredictionExtent_error {count stride maximum : Nat} (h : maximum < count * stride) :
    checkedPredictionExtent count stride maximum =
      .error "RF-DETR prediction extent exceeds supported storage" := by
  refine if_pos ?_
  by_cases hstride : stride = 0
  · exact .inr (.inl hstride)
  · exact .inr (.inr ((Nat.div_lt_iff_lt_mul (Nat.pos_of_ne_zero hstride)).mpr h))

/-- The extent of the mask, which no bit changes. -/
structure Sized (height width : Nat) (state : ScanState) : Prop where
  height_eq : state.mask.height = height
  width_eq : state.mask.width = width

section Sizes

variable {height width maximumRuns : Nat} {state next : ScanState}

theorem flush_sized (h : Sized height width state) (hnext : flush state maximumRuns = .ok next) :
    Sized height width next := by
  rw [flush, appendRun] at hnext
  split at hnext
  next =>
    split at hnext
    · cases hnext
    next mask hmask =>
      split at hmask
      · cases hmask
      · cases hmask
        cases hnext
        exact ⟨h.height_eq, h.width_eq⟩
  next =>
    cases hnext
    exact h

theorem scanWord_sized {base valid turns word offset : Nat} (h : Sized height width state)
    (hnext : scanWord maximumRuns base valid turns word offset state = .ok next) :
    Sized height width next := by
  induction turns generalizing word offset state with
  | zero => cases hnext; exact h
  | succ turns ih =>
      rw [scanWord] at hnext
      split at hnext
      next =>
        dsimp only at hnext
        split at hnext
        · cases hnext
        next between hbetween =>
          refine ih ?_ hnext
          rw [takeBits] at hbetween
          split at hbetween
          · cases hbetween
            exact ⟨h.height_eq, h.width_eq⟩
          · exact flush_sized h hbetween
      next =>
        cases hnext
        exact h

theorem scanWords_sized {data : Nat → UInt8} {pixels turns base : Nat}
    (h : Sized height width state)
    (hnext : scanWords data maximumRuns pixels turns base state = .ok next) :
    Sized height width next := by
  induction turns generalizing base state with
  | zero => cases hnext; exact h
  | succ turns ih =>
      rw [scanWords] at hnext
      split at hnext
      next =>
        dsimp only at hnext
        split at hnext
        · cases hnext
        next between hbetween => exact ih (scanWord_sized h hbetween) hnext
      next =>
        cases hnext
        exact h

end Sizes

/-- A bitmap of a supported extent is encoded, unless it has more runs than are admitted. -/
theorem encode_ended (data : Nat → UInt8) (height width maximumRuns : Nat)
    (hpixels : width * height ≤ maximumEncodedMaskPixels) :
    match encodeMaskFromPackedDataInto data height width maximumRuns with
    | .ok mask => Encodes (pixelBit data) height width mask ∧
        countBelow (runStarts (pixelBit data)) (width * height) ≤
          min maximumRuns maximumPredictionMaskRuns
    | .error failure => failure.message = capacityMessage ∧
        min maximumRuns maximumPredictionMaskRuns <
          countBelow (runStarts (pixelBit data)) (width * height) := by
  have hlimit : width * height < 2 ^ 32 := by
    simp only [maximumEncodedMaskPixels] at hpixels
    omega
  generalize hmaximum : min maximumRuns maximumPredictionMaskRuns = limit
  have hstart := scanned_start (pixelBit data) limit height width
  rw [encodeMaskFromPackedDataInto]
  dsimp only
  by_cases hzero : width = 0 ∨ height = 0
  · have hnone : width * height = 0 := Nat.mul_eq_zero.mpr hzero
    rw [if_pos hzero, hnone]
    refine ⟨⟨rfl, rfl, .nil, fun pixel => ?_, ?_, ?_⟩, Nat.zero_le _⟩
    · rw [hnone]
      exact iff_of_false covered_nil fun h => Nat.not_lt_zero _ h.1
    · rw [hnone]
      rfl
    · rw [hnone]
      rfl
  obtain ⟨hwidth, hheight⟩ := not_or.mp hzero
  rw [if_neg hzero, checkedPredictionExtent_ok hwidth hheight hpixels, hmaximum]
  dsimp only
  have hscan : Ended (pixelBit data) limit (width * height) (width * height)
      (scanWords data limit (width * height) (width * height / 64 + 1) 0
        ⟨reset height width, 0, 0⟩) :=
    scanWords_ended (by rwa [Nat.zero_min]) (Nat.dvd_zero _) (by omega) hlimit
  cases hscanned : scanWords data limit (width * height) (width * height / 64 + 1) 0
      ⟨reset height width, 0, 0⟩ with
  | error failure =>
      rw [hscanned] at hscan
      exact hscan
  | ok state =>
      rw [hscanned] at hscan
      have hflush := flush_spec hscan hlimit
      have hsized := scanWords_sized (Sized.mk rfl rfl) hscanned
      dsimp only
      cases hflushed : flush state limit with
      | error failure =>
          rw [hflushed] at hflush
          exact hflush
      | ok next =>
          rw [hflushed] at hflush
          obtain ⟨hclosed, hfound, harea, hruns⟩ := hflush
          have hfinal := flush_sized hsized hflushed
          rw [found_closed hclosed] at hfound
          have hcount : next.mask.runs.length =
              countBelow (runStarts (pixelBit data)) (width * height) := by
            rw [← hscan.count, ← hfound, runIntervals, List.length_map]
          exact ⟨⟨hfinal.height_eq, hfinal.width_eq, hfound ▸ hscan.separated,
            hfound ▸ hscan.covered, harea.trans hscan.area, hcount⟩, hcount ▸ hruns⟩

/-! ### The pixels of both -/

/-- Runs in order that do not overlap, inside a mask of a supported extent. -/
structure RunList (runs : List (Nat × Nat)) : Prop where
  ordered : runs.Pairwise fun earlier later => earlier.1 + earlier.2 ≤ later.1
  below : ∀ run ∈ runs, run.1 + run.2 ≤ maximumEncodedMaskPixels

def commonPixels (lefts rights : List (Nat × Nat)) : Set Nat :=
  {pixel | Covered (runIntervals lefts) pixel ∧ Covered (runIntervals rights) pixel}

section Common

variable {left right : Nat × Nat} {lefts rights : List (Nat × Nat)} {total : Nat}

theorem RunList.tail (h : RunList (left :: lefts)) : RunList lefts :=
  ⟨(List.pairwise_cons.mp h.ordered).2, (List.forall_mem_cons.mp h.below).2⟩

theorem RunList.behind (h : RunList (left :: lefts)) {pixel : Nat}
    (hcovered : Covered (runIntervals lefts) pixel) : left.1 + left.2 ≤ pixel := by
  obtain ⟨interval, hmem, hin⟩ := hcovered
  obtain ⟨run, hrun, rfl⟩ := List.mem_map.mp hmem
  exact ((List.pairwise_cons.mp h.ordered).1 run hrun).trans hin.1

theorem commonPixels_comm (lefts rights : List (Nat × Nat)) :
    commonPixels lefts rights = commonPixels rights lefts :=
  Set.ext fun _ => and_comm

theorem commonPixels_finite (lefts rights : List (Nat × Nat)) :
    (commonPixels lefts rights).Finite :=
  (Ordered.finite (runIntervals lefts)).subset fun _ h => h.1

/-- The run that ends first has nothing in common with the runs behind the other. -/
theorem commonPixels_cons (hleft : RunList (left :: lefts)) (hright : RunList (right :: rights))
    (hends : left.1 + left.2 ≤ right.1 + right.2) :
    (commonPixels (left :: lefts) (right :: rights)).ncard =
      (min (left.1 + left.2) (right.1 + right.2) - max left.1 right.1) +
        (commonPixels lefts (right :: rights)).ncard := by
  have hsplit : commonPixels (left :: lefts) (right :: rights) =
      Set.Ico (max left.1 right.1) (min (left.1 + left.2) (right.1 + right.2)) ∪
        commonPixels lefts (right :: rights) := by
    refine Set.ext fun pixel => ?_
    constructor
    · rintro ⟨hin, hother⟩
      rcases covered_cons.mp hin with hown | hlater
      · rcases covered_cons.mp hother with hfirst | hbehind
        · exact .inl ⟨max_le hown.1 hfirst.1, lt_min hown.2 hfirst.2⟩
        · have hafter := hright.behind hbehind
          dsimp only at hown
          omega
      · exact .inr ⟨hlater, hother⟩
    · rintro (⟨hge, hless⟩ | ⟨hlater, hother⟩)
      · obtain ⟨hown, hfirst⟩ := max_le_iff.mp hge
        obtain ⟨hownEnd, hfirstEnd⟩ := lt_min_iff.mp hless
        exact ⟨covered_cons.mpr (.inl ⟨hown, hownEnd⟩), covered_cons.mpr (.inl ⟨hfirst, hfirstEnd⟩)⟩
      · exact ⟨covered_cons.mpr (.inr hlater), hother⟩
  have hdisjoint : Disjoint
      (Set.Ico (max left.1 right.1) (min (left.1 + left.2) (right.1 + right.2)))
      (commonPixels lefts (right :: rights)) := by
    refine Set.disjoint_left.mpr fun pixel hin hcommon => ?_
    have hafter := hleft.behind hcommon.1
    have hbefore := (lt_min_iff.mp hin.2).1
    omega
  rw [hsplit, Set.ncard_union_eq hdisjoint (Set.finite_Ico _ _) (commonPixels_finite _ _),
    ← Finset.coe_Ico, Set.ncard_coe_finset, Nat.card_Ico]

theorem RunList.word32_end (h : RunList (left :: lefts)) :
    word32 (left.1 + left.2) = left.1 + left.2 := by
  have hbelow := h.below left List.mem_cons_self
  simp only [maximumEncodedMaskPixels] at hbelow
  exact Nat.mod_eq_of_lt (by omega)

/-- The sum of the overlaps stays in its word. -/
theorem word32_added {start last rest : Nat} (h : total + (last - start + rest) < 2 ^ 32) :
    (if start < last then word32 (total + (last - start)) else total) = total + (last - start) := by
  split
  · exact Nat.mod_eq_of_lt (by omega)
  · omega

theorem intersectionAreaFrom_eq (hleft : RunList lefts) (hright : RunList rights)
    (htotal : total + (commonPixels lefts rights).ncard < 2 ^ 32) :
    intersectionAreaFrom total lefts rights = total + (commonPixels lefts rights).ncard := by
  have hnil : ∀ runs, commonPixels [] runs = ∅ := fun runs =>
    Set.eq_empty_of_forall_notMem fun pixel h => covered_nil h.1
  fun_induction intersectionAreaFrom total lefts rights with
  | case1 total rights => rw [hnil, Set.ncard_empty, Nat.add_zero]
  | case2 total left lefts => rw [commonPixels_comm, hnil, Set.ncard_empty, Nat.add_zero]
  | case3 total left lefts right rights leftEnd rightEnd overlapStart overlapEnd next hends ih =>
      have hleftEnd : leftEnd = left.1 + left.2 := hleft.word32_end
      have hrightEnd : rightEnd = right.1 + right.2 := hright.word32_end
      have hcommon := commonPixels_cons hleft hright (by omega)
      rw [hcommon, ← hleftEnd, ← hrightEnd] at htotal ⊢
      have hnext : next = total + (overlapEnd - overlapStart) := word32_added htotal
      rw [ih hleft.tail hright (by rw [hnext]; omega), hnext, Nat.add_assoc]
  | case4 total left lefts right rights leftEnd rightEnd overlapStart overlapEnd next hends ih =>
      have hleftEnd : leftEnd = left.1 + left.2 := hleft.word32_end
      have hrightEnd : rightEnd = right.1 + right.2 := hright.word32_end
      have hcommon := commonPixels_cons hright hleft (by omega)
      rw [commonPixels_comm, hcommon, ← hleftEnd, ← hrightEnd, commonPixels_comm, min_comm,
        max_comm] at htotal ⊢
      have hnext : next = total + (overlapEnd - overlapStart) := word32_added htotal
      rw [ih hleft hright.tail (by rw [hnext]; omega), hnext, Nat.add_assoc]

theorem intersectionAreaRuns_eq (hleft : RunList lefts) (hright : RunList rights) :
    intersectionAreaRuns lefts rights = (commonPixels lefts rights).ncard := by
  have hle : (commonPixels lefts rights).ncard ≤ maximumEncodedMaskPixels := by
    have hsubset : commonPixels lefts rights ⊆ ↑(Finset.range maximumEncodedMaskPixels) := by
      intro pixel h
      obtain ⟨interval, hmem, hin⟩ := h.1
      obtain ⟨run, hrun, rfl⟩ := List.mem_map.mp hmem
      have hbelow := hleft.below run hrun
      exact Finset.mem_coe.mpr (Finset.mem_range.mpr (hin.2.trans_le hbelow))
    have hcard := Set.ncard_le_ncard hsubset (Finset.finite_toSet _)
    rwa [Set.ncard_coe_finset, Finset.card_range] at hcard
  simp only [maximumEncodedMaskPixels] at hle
  rw [intersectionAreaRuns, intersectionAreaFrom_eq hleft hright (by omega), Nat.zero_add]

end Common

/-- A bitmap of a supported extent is encoded as its maximal runs and the number of its foreground
pixels, whatever its padding, if and only if these runs are admitted; and of runs inside such an
extent the common pixels are counted. -/
theorem encode_and_intersect :
    (∀ (data : Nat → UInt8) (height width maximumRuns : Nat),
      let encode := fun data => encodeMaskFromPackedDataInto data height width maximumRuns
      let runs := countBelow (runStarts (pixelBit data)) (width * height)
      let limit := min maximumRuns maximumPredictionMaskRuns
      (width * height ≤ maximumEncodedMaskPixels →
        (runs ≤ limit → ∃ mask, encode data = .ok mask ∧
          Encodes (pixelBit data) height width mask) ∧
        (limit < runs → ∃ mask, encode data = .error ⟨capacityMessage, mask⟩) ∧
        ∀ other, (∀ pixel < width * height, pixelBit other pixel = pixelBit data pixel) →
          (encode other).toOption = (encode data).toOption) ∧
      (maximumEncodedMaskPixels < width * height → encode data =
        .error ⟨"RF-DETR prediction extent exceeds supported storage", reset height width⟩)) ∧
    ∀ lefts rights, RunList lefts → RunList rights →
      intersectionAreaRuns lefts rights = (commonPixels lefts rights).ncard := by
  refine ⟨fun data height width maximumRuns => ?_, fun lefts rights => intersectionAreaRuns_eq⟩
  intro encode runs limit
  refine ⟨fun hpixels => ?_, fun hpixels => ?_⟩
  · have hended := fun data => encode_ended data height width maximumRuns hpixels
    refine ⟨fun hruns => ?_, fun hruns => ?_, fun other hsame => ?_⟩
    · have hdata := hended data
      cases hencode : encodeMaskFromPackedDataInto data height width maximumRuns with
      | error failure =>
          rw [hencode] at hdata
          exact absurd hdata.2 (Nat.not_lt.mpr hruns)
      | ok mask =>
          rw [hencode] at hdata
          exact ⟨mask, hencode, hdata.1⟩
    · have hdata := hended data
      cases hencode : encodeMaskFromPackedDataInto data height width maximumRuns with
      | error failure =>
          rw [hencode] at hdata
          exact ⟨failure.mask, hencode.trans (by rw [← hdata.1])⟩
      | ok mask =>
          rw [hencode] at hdata
          exact absurd hdata.2 (Nat.not_le.mpr hruns)
    · have hdata := hended data
      have hother := hended other
      rw [countBelow_congr hsame] at hother
      dsimp only [encode]
      cases hencode : encodeMaskFromPackedDataInto data height width maximumRuns with
      | error failure =>
          rw [hencode] at hdata
          cases hencode' : encodeMaskFromPackedDataInto other height width maximumRuns with
          | error failure' => rfl
          | ok mask' =>
              rw [hencode'] at hother
              exact absurd hdata.2 (Nat.not_lt.mpr hother.2)
      | ok mask =>
          rw [hencode] at hdata
          cases hencode' : encodeMaskFromPackedDataInto other height width maximumRuns with
          | error failure' =>
              rw [hencode'] at hother
              exact absurd hother.2 (Nat.not_lt.mpr hdata.2)
          | ok mask' =>
              rw [hencode'] at hother
              exact congrArg some (hdata.1.unique hother.1 hsame)
  · have hsome : ¬ (width = 0 ∨ height = 0) := by
      rintro (rfl | rfl) <;> simp [maximumEncodedMaskPixels] at hpixels
    dsimp only [encode]
    rw [encodeMaskFromPackedDataInto]
    dsimp only
    rw [if_neg hsome, checkedPredictionExtent_error hpixels]

/-! ### What the guards refuse -/

theorem countBelow_even (count : Nat) : countBelow (fun pixel => pixel % 2 == 0) (2 * count) = count := by
  induction count with
  | zero => rfl
  | succ count ih =>
      rw [Nat.mul_succ, countBelow_add, ih]
      have hpair : countBelow (fun index => (2 * count + index) % 2 == 0) 2 = 1 := by
        change [0, 1].countP (fun index => (2 * count + index) % 2 == 0) = 1
        have hfirst : (2 * count + 0) % 2 = 0 := by omega
        have hsecond : (2 * count + 1) % 2 = 1 := by omega
        simp only [List.countP_cons, List.countP_nil, hfirst, hsecond]
        rfl
      rw [hpair]

/-- In bytes of 85 every other pixel is a run. -/
theorem countStarts_alternating (count : Nat) :
    countBelow (runStarts (pixelBit fun _ => 0x55)) (2 * count) = count := by
  have hbyte : ∀ place < 8, (0x55 : UInt8).toNat.testBit place = (place % 2 == 0) := by decide
  have hbit : ∀ pixel, pixelBit (fun _ => 0x55) pixel = (pixel % 2 == 0) := by
    intro pixel
    have hplace : pixel % 8 % 2 = pixel % 2 := by omega
    rw [pixelBit, hbyte _ (Nat.mod_lt _ (by decide)), hplace]
  have hstarts : ∀ pixel, runStarts (pixelBit fun _ => 0x55) pixel = (pixel % 2 == 0) := by
    intro pixel
    rw [runStarts, hbit, hbit]
    cases heven : pixel % 2 == 0 with
    | false => rfl
    | true =>
        cases pixel with
        | zero => rfl
        | succ pixel =>
            rw [beq_iff_eq] at heven
            have hodd : pixel % 2 ≠ 0 := by omega
            rw [Nat.add_sub_cancel, beq_false_of_ne hodd]
            simp only [Bool.not_false, Bool.or_true, Bool.and_true]
  rw [funext hstarts]
  exact countBelow_even count

theorem encode_refused {data : Nat → UInt8} {height width maximumRuns : Nat}
    (hpixels : width * height ≤ maximumEncodedMaskPixels)
    (hruns : maximumPredictionMaskRuns < countBelow (runStarts (pixelBit data)) (width * height)) :
    ∃ failure, encodeMaskFromPackedDataInto data height width maximumRuns = .error failure := by
  have hended := encode_ended data height width maximumRuns hpixels
  cases hencode : encodeMaskFromPackedDataInto data height width maximumRuns with
  | error failure => exact ⟨failure, rfl⟩
  | ok mask =>
      rw [hencode] at hended
      exact absurd (hended.2.trans (Nat.min_le_right _ _)) (Nat.not_le.mpr hruns)

/-- A bitmap of 2^32 pixels is refused with no run in it; a limit above that of all predictions is
not reached; and a run up to the end of a 32-bit word has no pixels in common with itself. -/
theorem guards_refuse :
    (countBelow (runStarts (pixelBit fun _ => 0)) (65536 * 65536) ≤ 0 ∧
      ∃ failure, encodeMaskFromPackedDataInto (fun _ => 0) 65536 65536 0 = .error failure) ∧
    (countBelow (runStarts (pixelBit fun _ => 0x55)) (97612894 * 1) ≤ 48806447 ∧
      ∃ failure, encodeMaskFromPackedDataInto (fun _ => 0x55) 1 97612894 48806447 =
        .error failure) ∧
    (intersectionAreaRuns [(2 ^ 32 - 1, 1)] [(2 ^ 32 - 1, 1)] = 0 ∧
      2 ^ 32 - 1 ∈ commonPixels [(2 ^ 32 - 1, 1)] [(2 ^ 32 - 1, 1)]) := by
  have hclear : ∀ pixel, pixelBit (fun _ => 0) pixel = false := fun pixel => Nat.zero_testBit _
  have hnone : countBelow (runStarts (pixelBit fun _ => 0)) (65536 * 65536) = 0 :=
    List.countP_eq_zero.mpr fun pixel _ => by
      rw [runStarts, hclear, Bool.false_and]
      exact Bool.false_ne_true
  have hruns : countBelow (runStarts (pixelBit fun _ => 0x55)) (97612894 * 1) = 48806447 :=
    countStarts_alternating 48806447
  refine ⟨⟨hnone.le, ⟨"RF-DETR prediction extent exceeds supported storage", reset 65536 65536⟩, ?_⟩,
    ⟨hruns.le, ?_⟩, ?_, ?_⟩
  · rw [encodeMaskFromPackedDataInto]
    dsimp only
    rw [if_neg (by decide), checkedPredictionExtent_error (by decide)]
  · refine encode_refused (by simp only [maximumEncodedMaskPixels]; omega) ?_
    rw [hruns, maximumPredictionMaskRuns, maximumPredictionEncodedBytes]
    omega
  · simp [intersectionAreaRuns, intersectionAreaFrom, word32]
  · exact ⟨⟨_, List.mem_singleton_self _, by decide⟩, ⟨_, List.mem_singleton_self _, by decide⟩⟩

end EncodedMask

end Mmltk.Evaluation
