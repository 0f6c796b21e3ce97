import Mmltk.Foundation.ByteContent
import Mmltk.Storage.FileHandle

namespace Mmltk.Storage

open Mmltk.Foundation

/-! `pwritev_all`: spans that follow one another in a file, written by calls that may come back
early. -/

/-- The length of the array of `iovec`. -/
def maximumVectors : Nat := 16

/-- What one call may transfer. -/
def maximumTransfer : Nat := 0x7ffff000

/-- What becomes of one call: a cancellation that is seen before it, or the system's answer. A
result is never more than was asked for. -/
inductive PwritevAnswer where
  | cancelled
  | interrupted
  | failed (code : Nat)
  | wrote (result : Nat)
  deriving DecidableEq, Repr

/-- The vectors handed over, where they go, and the bytes that got there. -/
structure PwritevCall where
  offset : Nat
  vectors : List (List UInt8)
  written : List UInt8
  deriving DecidableEq, Repr

inductive WriteOutcome where
  | done
  | waiting
  | failed (failure : FileFailure)
  deriving DecidableEq, Repr

structure WriteRun where
  file : ByteContent
  calls : List PwritevCall
  outcome : WriteOutcome

/-- `index` and `consumed` say where in the sources the writing stands. -/
structure WriteState where
  file : ByteContent
  offset : Nat
  index : Nat
  consumed : Nat

namespace FileHandle

/-- The loop that fills the vectors, `count` of them so far with `bytes` in them. -/
def fillVectors (skip count bytes : Nat) : List (List UInt8) → List (List UInt8)
  | [] => []
  | source :: rest =>
      if count < maximumVectors then
        if skip = source.length then fillVectors 0 count bytes rest
        else
          let amount := min (source.length - skip) (maximumTransfer - bytes)
          if amount = 0 then []
          else (source.drop skip).take amount :: fillVectors 0 (count + 1) (bytes + amount) rest
      else []

/-- The loop that passes the sources a result completes. -/
def advance (index consumed completed : Nat) : List (List UInt8) → Nat × Nat
  | [] => (index, consumed + completed)
  | source :: rest =>
      if source.length - consumed ≤ completed then
        advance (index + 1) 0 (completed - (source.length - consumed)) rest
      else (index, consumed + completed)

def window (sources : List (List UInt8)) (state : WriteState) : List (List UInt8) :=
  fillVectors state.consumed 0 0 (sources.drop state.index)

/-- One turn of the loop, its vectors filled. -/
def writeVectors (sources : List (List UInt8)) (state : WriteState) (vectors : List (List UInt8))
    (answer : PwritevAnswer) : Except FileFailure (PwritevCall × WriteState) :=
  match answer, checkedOffset state.offset "pwritev offset overflow" with
  | .cancelled, _ => .error (.runtime "file write cancelled")
  | _, .error failure => .error (.storage failure)
  | .failed code, .ok () => .error (.storage (.system code "pwritev failed"))
  | .interrupted, .ok () => .ok (⟨state.offset, vectors, []⟩, state)
  | .wrote result, .ok () =>
      let written := vectors.flatten.take result
      if written.length = 0 then .error (.runtime "zero progress during pwritev")
      else
        let place := advance state.index state.consumed written.length (sources.drop state.index)
        .ok (⟨state.offset, vectors, written⟩,
          ⟨state.file.put state.offset written, state.offset + written.length, place.1, place.2⟩)

def writeLoop (sources : List (List UInt8)) (state : WriteState) : List PwritevAnswer → WriteRun
  | [] => ⟨state.file, [], if window sources state = [] then .done else .waiting⟩
  | answer :: rest =>
      -- past the last source, or with nothing but empty ones left
      if window sources state = [] then ⟨state.file, [], .done⟩
      else
        match writeVectors sources state (window sources state) answer with
        | .error failure => ⟨state.file, [], .failed failure⟩
        | .ok (call, next) =>
            let run := writeLoop sources next rest
            ⟨run.file, call :: run.calls, run.outcome⟩

def totalBytes (total : Nat) : List (List UInt8) → Except StorageFailure Nat
  | [] => .ok total
  | source :: rest => do
      let sum ← checkedAdd total source.length "pwritev extent overflow"
      totalBytes sum rest

def checkExtent (sources : List (List UInt8)) (offset : Nat) : Except StorageFailure Unit := do
  let total ← totalBytes 0 sources
  let last ← checkedAdd offset total "pwritev extent overflow"
  checkedOffset last "pwritev extent overflow"

/-- `pwritev_all` -/
def pwritevAll (sources : List (List UInt8)) (offset : Nat) (file : ByteContent)
    (answers : List PwritevAnswer) : WriteRun :=
  match checkExtent sources offset with
  | .error failure => ⟨file, [], .failed (.storage failure)⟩
  | .ok () => writeLoop sources ⟨file, offset, 0, 0⟩ answers

/-! ### The vectors of a call -/

/-- The place is inside the first source, or at its end. -/
def Within (skip : Nat) : List (List UInt8) → Prop
  | [] => skip = 0
  | source :: _ => skip ≤ source.length

theorem within_zero (sources : List (List UInt8)) : Within 0 sources := by
  cases sources with
  | nil => rfl
  | cons source rest => exact Nat.zero_le _

theorem fillVectors_full (sources : List (List UInt8)) (count : Nat) :
    fillVectors 0 count maximumTransfer sources = [] := by
  induction sources with
  | nil => rfl
  | cons source rest ih =>
      rw [fillVectors, ih, Nat.sub_self, Nat.min_zero]
      simp only [if_true, ite_self]

theorem fillVectors_prefix (sources : List (List UInt8)) {skip : Nat} (count bytes : Nat)
    (hskip : Within skip sources) :
    (fillVectors skip count bytes sources).flatten <+: sources.flatten.drop skip := by
  induction sources generalizing skip count bytes with
  | nil => exact List.nil_prefix
  | cons source rest ih =>
      have hle : skip ≤ source.length := hskip
      rw [fillVectors, List.flatten_cons, List.drop_append_of_le_length hle]
      split
      next =>
        split
        next hend =>
          have hnone : source.drop skip = [] := List.drop_eq_nil_of_le hend.ge
          rw [hnone, List.nil_append, ← List.drop_zero (l := rest.flatten)]
          exact ih count bytes (within_zero rest)
        next hend =>
          dsimp only
          split
          next => exact List.nil_prefix
          next hamount =>
            rw [List.flatten_cons]
            rcases Nat.le_total (source.length - skip) (maximumTransfer - bytes) with hfits | hfull
            · rw [Nat.min_eq_left hfits,
                List.take_of_length_le (Nat.le_of_eq List.length_drop),
                List.prefix_append_right_inj]
              exact ih _ _ (within_zero rest)
            · have hbytes : bytes + (maximumTransfer - bytes) = maximumTransfer := by omega
              rw [Nat.min_eq_right hfull, hbytes, fillVectors_full, List.flatten_nil,
                List.append_nil]
              exact (List.take_prefix _ _).trans (List.prefix_append _ _)
      next => exact List.nil_prefix

/-- While bytes are left, a call has one of them to write. -/
theorem fillVectors_ne_nil (sources : List (List UInt8)) {skip count bytes : Nat}
    (hskip : Within skip sources) (hcount : count < maximumVectors)
    (hbytes : bytes < maximumTransfer) (hleft : sources.flatten.drop skip ≠ []) :
    fillVectors skip count bytes sources ≠ [] := by
  induction sources generalizing skip with
  | nil => exact absurd List.drop_nil hleft
  | cons source rest ih =>
      have hle : skip ≤ source.length := hskip
      rw [fillVectors, if_pos hcount]
      split
      next hend =>
        rw [List.flatten_cons, List.drop_append_of_le_length hle,
          List.drop_eq_nil_of_le hend.ge, List.nil_append] at hleft
        exact ih (within_zero rest) hleft
      next hend =>
        rw [if_neg (by omega)]
        exact List.cons_ne_nil _ _

/-- What the system is handed: no vector is empty, and neither limit is passed. -/
structure Fits (count bytes : Nat) (vectors : List (List UInt8)) : Prop where
  nonempty : ∀ vector ∈ vectors, vector ≠ []
  vectors_le : count + vectors.length ≤ maximumVectors
  bytes_le : bytes + vectors.flatten.length ≤ maximumTransfer

theorem fits_nil {count bytes : Nat} (hcount : count ≤ maximumVectors)
    (hbytes : bytes ≤ maximumTransfer) : Fits count bytes [] :=
  ⟨List.forall_mem_nil _, hcount, hbytes⟩

theorem Fits.eq_nil {count bytes : Nat} {vectors : List (List UInt8)}
    (h : Fits count bytes vectors) (hflatten : vectors.flatten = []) : vectors = [] :=
  List.eq_nil_iff_forall_not_mem.mpr fun vector hvector =>
    h.nonempty vector hvector (List.flatten_eq_nil_iff.mp hflatten vector hvector)

theorem fillVectors_fits (sources : List (List UInt8)) {skip count bytes : Nat}
    (hskip : Within skip sources) (hcount : count ≤ maximumVectors)
    (hbytes : bytes ≤ maximumTransfer) :
    Fits count bytes (fillVectors skip count bytes sources) := by
  induction sources generalizing skip count bytes with
  | nil => exact fits_nil hcount hbytes
  | cons source rest ih =>
      have hle : skip ≤ source.length := hskip
      rw [fillVectors]
      split
      next hroom =>
        split
        next => exact ih (within_zero rest) hcount hbytes
        next hend =>
          dsimp only
          generalize hamount : min (source.length - skip) (maximumTransfer - bytes) = amount
          split
          next => exact fits_nil hcount hbytes
          next hsome =>
            have hlength : ((source.drop skip).take amount).length = amount := by
              rw [List.length_take, List.length_drop]
              omega
            have hnext : Fits (count + 1) (bytes + amount)
                (fillVectors 0 (count + 1) (bytes + amount) rest) :=
              ih (within_zero rest) hroom (by omega)
            have hvectors := hnext.vectors_le
            have htransfer := hnext.bytes_le
            refine ⟨List.forall_mem_cons.mpr ⟨?_, hnext.nonempty⟩, ?_, ?_⟩
            · exact List.ne_nil_of_length_pos (by omega)
            · rw [List.length_cons]
              omega
            · rw [List.flatten_cons, List.length_append, hlength]
              omega
      next => exact fits_nil hcount hbytes

/-! ### Where the writing stands -/

/-- The bytes that are still to be written. -/
def left (sources : List (List UInt8)) (index consumed : Nat) : List UInt8 :=
  (sources.drop index).flatten.drop consumed

theorem advance_left (sources : List (List UInt8)) (index consumed completed : Nat)
    (hwithin : Within consumed (sources.drop index))
    (hcompleted : completed ≤ (left sources index consumed).length) :
    let place := advance index consumed completed (sources.drop index)
    left sources place.1 place.2 = (left sources index consumed).drop completed ∧
      Within place.2 (sources.drop place.1) := by
  generalize hrest : sources.drop index = rest
  induction rest generalizing index consumed completed with
  | nil =>
      rw [left, hrest, List.flatten_nil, List.drop_nil] at hcompleted
      obtain rfl : completed = 0 := Nat.le_zero.mp hcompleted
      exact ⟨rfl, hwithin⟩
  | cons source rest ih =>
      rw [hrest] at hwithin
      have hle : consumed ≤ source.length := hwithin
      have hhere : left sources index consumed = source.drop consumed ++ rest.flatten := by
        rw [left, hrest, List.flatten_cons, List.drop_append_of_le_length hle]
      rw [advance]
      split
      next hpast =>
        have hnext : sources.drop (index + 1) = rest := by
          rw [← List.drop_drop, hrest]
          rfl
        have hbehind : left sources (index + 1) 0 = rest.flatten := by
          rw [left, hnext, List.drop_zero]
        rw [hhere, List.length_append, List.length_drop] at hcompleted
        have hstep := ih (index + 1) 0 (completed - (source.length - consumed))
          (within_zero _) (by rw [hbehind]; omega) hnext
        rw [hbehind] at hstep
        refine ⟨hstep.1.trans ?_, hstep.2⟩
        have hnone : (source.drop consumed).drop completed = [] :=
          List.drop_eq_nil_of_le (List.length_drop ▸ hpast)
        rw [hhere, List.drop_append, hnone, List.length_drop, List.nil_append]
      next hpast =>
        refine ⟨(List.drop_drop).symm, ?_⟩
        change Within (consumed + completed) (sources.drop index)
        rw [hrest]
        change consumed + completed ≤ source.length
        omega

/-- `written` is in the file, and the rest is still to come. -/
structure Placed (sources : List (List UInt8)) (start : Nat) (before : ByteContent)
    (state : WriteState) (written : List UInt8) : Prop where
  offset : state.offset = start + written.length
  file : state.file = before.put start written
  split : sources.flatten = written ++ left sources state.index state.consumed
  within_source : Within state.consumed (sources.drop state.index)

section Runs

variable {sources : List (List UInt8)} {start : Nat} {before : ByteContent} {state : WriteState}
  {written : List UInt8}

theorem window_front (hplaced : Placed sources start before state written) :
    (window sources state).flatten <+: left sources state.index state.consumed :=
  fillVectors_prefix _ _ _ hplaced.within_source

theorem left_of_window (hplaced : Placed sources start before state written) :
    window sources state = [] ↔ left sources state.index state.consumed = [] := by
  refine ⟨fun h => ?_, fun h => ?_⟩
  · by_contra hleft
    exact fillVectors_ne_nil _ hplaced.within_source (by decide) (by decide) hleft h
  · have hflatten := List.prefix_nil.mp (h ▸ window_front hplaced)
    have hfits := fillVectors_fits _ hplaced.within_source (Nat.zero_le maximumVectors)
      (Nat.zero_le maximumTransfer)
    exact hfits.eq_nil hflatten

/-- One call: it goes to the place reached, and writes the first bytes of its vectors. -/
structure CallAt (offset : Nat) (call : PwritevCall) : Prop where
  offset_eq : call.offset = offset
  vectors_ne : call.vectors ≠ []
  fits : Fits 0 0 call.vectors
  written_prefix : call.written <+: call.vectors.flatten

theorem writeVectors_placed {answer : PwritevAnswer} {call : PwritevCall} {next : WriteState}
    (hplaced : Placed sources start before state written) (hwindow : window sources state ≠ [])
    (h : writeVectors sources state (window sources state) answer = .ok (call, next)) :
    Placed sources start before next (written ++ call.written) ∧
      CallAt (start + written.length) call ∧
      (answer = .interrupted ∨ call.written ≠ []) := by
  have hfits : Fits 0 0 (window sources state) := fillVectors_fits _ hplaced.within_source
    (Nat.zero_le maximumVectors) (Nat.zero_le maximumTransfer)
  unfold writeVectors at h
  split at h
  · cases h
  · cases h
  · cases h
  · cases h
    rw [List.append_nil]
    exact ⟨hplaced, ⟨hplaced.offset, hwindow, hfits, List.nil_prefix⟩, .inl rfl⟩
  next result _ =>
    dsimp only at h
    have hfront := (List.take_prefix result _).trans (window_front hplaced)
    generalize hchunk : (window sources state).flatten.take result = chunk at h hfront
    split at h
    · cases h
    next hsome =>
      cases h
      obtain ⟨hleft, hwithin⟩ := advance_left sources state.index state.consumed chunk.length
        hplaced.within_source hfront.length_le
      refine ⟨⟨?_, ?_, ?_, hwithin⟩, ⟨hplaced.offset, hwindow, hfits, ?_⟩,
        .inr (List.ne_nil_of_length_pos (Nat.pos_of_ne_zero hsome))⟩
      · change state.offset + chunk.length = _
        rw [hplaced.offset, List.length_append, Nat.add_assoc]
      · change state.file.put state.offset chunk = _
        rw [hplaced.file, hplaced.offset, ByteContent.put_append]
      · change sources.flatten = written ++ chunk ++ left sources _ _
        rw [hleft, List.append_assoc, hplaced.split]
        exact congrArg _ (List.prefix_iff_eq_append.mp hfront).symm
      · exact hchunk ▸ List.take_prefix _ _

/-- What the calls wrote, in their order. -/
def bytesOf (calls : List PwritevCall) : List UInt8 := (calls.map PwritevCall.written).flatten

@[simp] theorem bytesOf_nil : bytesOf [] = [] := rfl

@[simp] theorem bytesOf_cons (call : PwritevCall) (calls : List PwritevCall) :
    bytesOf (call :: calls) = call.written ++ bytesOf calls := rfl

/-- Each call starts where the one before it stopped. -/
def Consecutive (offset : Nat) : List PwritevCall → Prop
  | [] => True
  | call :: rest => CallAt offset call ∧ Consecutive (offset + call.written.length) rest

/-- The system has answered, and not with an interruption. -/
def answered (answer : PwritevAnswer) : Bool := answer != .interrupted

/-- What holds of a run, `written` being what was in the file when it began. -/
structure Ran (sources : List (List UInt8)) (start : Nat) (before : ByteContent)
    (written : List UInt8) (answers : List PwritevAnswer) (run : WriteRun) : Prop where
  file : run.file = before.put start (written ++ bytesOf run.calls)
  calls : Consecutive (start + written.length) run.calls
  bytes : written ++ bytesOf run.calls <+: sources.flatten
  done : run.outcome = .done → written ++ bytesOf run.calls = sources.flatten
  waiting : run.outcome = .waiting →
    written.length + answers.countP answered < sources.flatten.length

theorem ran_nil {answers : List PwritevAnswer} {outcome : WriteOutcome}
    (hplaced : Placed sources start before state written)
    (hdone : outcome = .done → left sources state.index state.consumed = [])
    (hwaiting : outcome = .waiting →
      written.length + answers.countP answered < sources.flatten.length) :
    Ran sources start before written answers ⟨state.file, [], outcome⟩ where
  file := by rw [bytesOf_nil, List.append_nil]; exact hplaced.file
  calls := trivial
  bytes := by rw [bytesOf_nil, List.append_nil]; exact ⟨_, hplaced.split.symm⟩
  done h := by rw [bytesOf_nil, hplaced.split, hdone h]
  waiting := hwaiting

theorem writeLoop_ran (answers : List PwritevAnswer)
    (hplaced : Placed sources start before state written) :
    Ran sources start before written answers (writeLoop sources state answers) := by
  induction answers generalizing state written with
  | nil =>
      refine ran_nil hplaced (fun h => ?_) fun h => ?_
      · split at h
        next hwindow => exact (left_of_window hplaced).mp hwindow
        next => cases h
      · split at h
        next => cases h
        next hwindow =>
          have hleft := mt (left_of_window hplaced).mpr hwindow
          rw [hplaced.split, List.length_append]
          exact Nat.add_lt_add_left (List.length_pos_of_ne_nil hleft) _
  | cons answer rest ih =>
      rw [writeLoop]
      split
      next hwindow =>
        exact ran_nil hplaced (fun _ => (left_of_window hplaced).mp hwindow) nofun
      next hwindow =>
        split
        next => exact ran_nil hplaced nofun nofun
        next call next hcall =>
          obtain ⟨hnext, hat, hprogress⟩ := writeVectors_placed hplaced hwindow hcall
          have hran := ih hnext
          have hlength : (written ++ call.written).length =
            written.length + call.written.length := List.length_append
          refine ⟨?_, ⟨hat, ?_⟩, ?_, fun h => ?_, fun h => ?_⟩
          · rw [bytesOf_cons, ← List.append_assoc]
            exact hran.file
          · rw [Nat.add_assoc, ← hlength]
            exact hran.calls
          · rw [bytesOf_cons, ← List.append_assoc]
            exact hran.bytes
          · rw [bytesOf_cons, ← List.append_assoc]
            exact hran.done h
          · have hwaiting := hran.waiting h
            rw [List.countP_cons]
            rcases hprogress with rfl | hsome
            · simp only [answered, bne_self_eq_false, Bool.false_eq_true, if_false]
              omega
            · have hpos := List.length_pos_of_ne_nil hsome
              split <;> omega

end Runs

/-! ### Whole runs -/

def covers (position : Nat) (call : PwritevCall) : Bool :=
  decide (call.offset ≤ position ∧ position < call.offset + call.written.length)

/-- Calls that follow one another write each place between their ends once. -/
theorem Consecutive.countP_covers {calls : List PwritevCall} {offset : Nat}
    (h : Consecutive offset calls) (position : Nat) :
    calls.countP (covers position) =
      if offset ≤ position ∧ position < offset + (bytesOf calls).length then 1 else 0 := by
  induction calls generalizing offset with
  | nil => exact (if_neg (by simp only [bytesOf_nil, List.length_nil]; omega)).symm
  | cons call rest ih =>
      obtain ⟨hcall, hrest⟩ := h
      rw [List.countP_cons, ih hrest, bytesOf_cons, List.length_append]
      simp only [covers, hcall.offset_eq, decide_eq_true_eq]
      split_ifs <;> omega

theorem Consecutive.fits {calls : List PwritevCall} {offset : Nat} (h : Consecutive offset calls) :
    ∀ call ∈ calls, call.vectors ≠ [] ∧ Fits 0 0 call.vectors := by
  induction calls generalizing offset with
  | nil => exact List.forall_mem_nil _
  | cons call rest ih =>
      exact List.forall_mem_cons.mpr ⟨⟨h.1.vectors_ne, h.1.fits⟩, ih h.2⟩

theorem totalBytes_eq (sources : List (List UInt8)) {total : Nat}
    (h : total + sources.flatten.length < wordLimit) :
    totalBytes total sources = .ok (total + sources.flatten.length) := by
  induction sources generalizing total with
  | nil => rfl
  | cons source rest ih =>
      rw [List.flatten_cons, List.length_append, ← Nat.add_assoc] at h ⊢
      rw [totalBytes, checkedAdd, if_pos (by omega)]
      exact ih h

theorem checkExtent_ok {sources : List (List UInt8)} {start : Nat}
    (h : start + sources.flatten.length < offsetLimit) : checkExtent sources start = .ok () := by
  have hword : start + sources.flatten.length < wordLimit := h.trans (by decide)
  have htotal : totalBytes 0 sources = .ok (0 + sources.flatten.length) :=
    totalBytes_eq sources (by omega)
  rw [Nat.zero_add] at htotal
  rw [checkExtent, htotal]
  change (checkedAdd start _ _ >>= fun last => checkedOffset last _) = _
  rw [checkedAdd, if_pos hword]
  exact if_pos h

/-- The system does not refuse, and what it writes is not nothing. -/
def accepts : PwritevAnswer → Bool
  | .interrupted => true
  | .wrote result => result != 0
  | .cancelled | .failed _ => false

/-- An accepted call is made: its offset is one the system takes. -/
theorem writeVectors_accepts {sources : List (List UInt8)} {start : Nat} {before : ByteContent}
    {state : WriteState} {written : List UInt8} {answer : PwritevAnswer}
    (hplaced : Placed sources start before state written) (hwindow : window sources state ≠ [])
    (hextent : start + sources.flatten.length < offsetLimit) (h : accepts answer = true) :
    ∀ failure, writeVectors sources state (window sources state) answer ≠ .error failure := by
  have hlength := congrArg List.length hplaced.split
  rw [List.length_append] at hlength
  have hoffset : checkedOffset state.offset "pwritev offset overflow" = .ok () :=
    if_pos (by rw [hplaced.offset]; omega)
  cases answer with
  | cancelled => cases h
  | failed code => cases h
  | interrupted =>
      simp only [writeVectors, hoffset]
      exact nofun
  | wrote result =>
      have hresult : result ≠ 0 := bne_iff_ne.mp h
      have hfits := fillVectors_fits _ hplaced.within_source (Nat.zero_le maximumVectors)
        (Nat.zero_le maximumTransfer)
      have hsome : (window sources state).flatten ≠ [] := mt hfits.eq_nil hwindow
      have hpos := List.length_pos_of_ne_nil hsome
      have htake : ((window sources state).flatten.take result).length ≠ 0 := by
        rw [List.length_take]
        omega
      simp only [writeVectors, hoffset, if_neg htake]
      exact nofun

theorem writeLoop_accepts {sources : List (List UInt8)} {start : Nat} {before : ByteContent}
    {state : WriteState} {written : List UInt8} {answers : List PwritevAnswer}
    (hplaced : Placed sources start before state written)
    (hextent : start + sources.flatten.length < offsetLimit)
    (haccepts : ∀ answer ∈ answers, accepts answer = true) (failure : FileFailure) :
    (writeLoop sources state answers).outcome ≠ .failed failure := by
  induction answers generalizing state written with
  | nil => rw [writeLoop]; split <;> nofun
  | cons answer rest ih =>
      rw [writeLoop]
      split
      next => nofun
      next hwindow =>
        obtain ⟨hanswer, hrest⟩ := List.forall_mem_cons.mp haccepts
        split
        next refused hrefused =>
          exact absurd hrefused (writeVectors_accepts hplaced hwindow hextent hanswer refused)
        next call next hmade => exact ih (writeVectors_placed hplaced hwindow hmade).1 hrest

theorem placed_start (sources : List (List UInt8)) (start : Nat) (file : ByteContent) :
    Placed sources start file ⟨file, start, 0, 0⟩ [] where
  offset := rfl
  file := rfl
  split := rfl
  within_source := within_zero _

theorem pwritevAll_ran (sources : List (List UInt8)) (start : Nat) (file : ByteContent)
    (answers : List PwritevAnswer) :
    Ran sources start file [] answers (pwritevAll sources start file answers) := by
  have hplaced := placed_start sources start file
  rw [pwritevAll]
  split
  next => exact ran_nil hplaced nofun nofun
  next => exact writeLoop_ran answers hplaced

/-- Whatever the system answers, the calls follow one another from the start offset and write a
first part of the spans, at the end all of it: each span at its place, each byte once, and nothing
outside. No call is without a byte to write, so a result that is no interruption leaves less to do,
and as many of them as there are bytes are enough. -/
theorem pwritevAll_spec (sources : List (List UInt8)) (start : Nat) (file : ByteContent)
    (answers : List PwritevAnswer) :
    let run := pwritevAll sources start file answers
    let total := sources.flatten.length
    (Consecutive start run.calls ∧ bytesOf run.calls <+: sources.flatten ∧
      run.file = file.put start (bytesOf run.calls)) ∧
    (∀ call ∈ run.calls, call.vectors ≠ [] ∧ Fits 0 0 call.vectors) ∧
    (run.outcome = .done →
      bytesOf run.calls = sources.flatten ∧
      run.file = file.put start sources.flatten ∧
      (∀ before source after, sources = before ++ source :: after →
        run.file.read (start + before.flatten.length) source.length = source) ∧
      ∀ position, run.calls.countP (covers position) =
        if start ≤ position ∧ position < start + total then 1 else 0) ∧
    (run.outcome = .waiting → answers.countP answered < total) ∧
    (start + total < offsetLimit → (∀ answer ∈ answers, accepts answer = true) →
      total ≤ answers.countP answered → run.outcome = .done) := by
  intro run total
  have hran : Ran sources start file [] answers run := pwritevAll_ran sources start file answers
  have hcalls : Consecutive start run.calls := hran.calls
  have hwaiting : run.outcome = .waiting → answers.countP answered < total := by
    intro h
    have hless := hran.waiting h
    rwa [List.length_nil, Nat.zero_add] at hless
  refine ⟨⟨hcalls, hran.bytes, hran.file⟩, hcalls.fits, fun h => ?_, hwaiting, ?_⟩
  · have hbytes : bytesOf run.calls = sources.flatten := hran.done h
    have hfile : run.file = file.put start sources.flatten := hbytes ▸ hran.file
    refine ⟨hbytes, hfile, fun before source after hsources => ?_, fun position => ?_⟩
    · rw [hfile, hsources, List.flatten_append, List.flatten_cons]
      exact ByteContent.read_put_part file start _ source _
    · rw [hcalls.countP_covers, hbytes]
  · intro hextent haccepts henough
    have hloop : run = writeLoop sources ⟨file, start, 0, 0⟩ answers := by
      change pwritevAll sources start file answers = _
      rw [pwritevAll, checkExtent_ok hextent]
    cases houtcome : run.outcome with
    | done => rfl
    | waiting => exact absurd (hwaiting houtcome) (Nat.not_lt.mpr henough)
    | failed failure =>
        rw [hloop] at houtcome
        exact absurd houtcome
          (writeLoop_accepts (placed_start sources start file) hextent haccepts failure)

example :
    let run := pwritevAll [[1, 2], [], [3, 4]] 7 .empty
      [.wrote 3, .interrupted, .wrote 9]
    run.outcome = .done ∧ run.calls =
      [⟨7, [[1, 2], [3, 4]], [1, 2, 3]⟩, ⟨10, [[4]], []⟩, ⟨10, [[4]], [4]⟩] := by
  decide

end FileHandle

end Mmltk.Storage
