import Mathlib.Order.Interval.Finset.Nat
import Mmltk.Foundation.Outcome
import Mmltk.Foundation.Transaction
import Mmltk.Storage.ReservationLedger

namespace Mmltk.Storage

open Mmltk.Foundation

/-! A file as its descriptor changes it: its length, and which of its pages have backing. -/

def pageBytes : Nat := 4096

/-- Offsets are `off_t`. -/
def offsetLimit : Nat := 2 ^ 63

inductive FileFailure where
  | storage (failure : StorageFailure)
  | runtime (message : String)
  deriving DecidableEq, Repr

def checkedOffset (value : Nat) (message : String) : Except StorageFailure Unit :=
  if value < offsetLimit then .ok () else .error (.overflow message)

/-- `checked_add(offset, 4095) / 4096 * 4096` -/
def pageCeil (offset : Nat) (message : String) : Except StorageFailure Nat := do
  let reach ← checkedAdd offset (pageBytes - 1) message
  return reach / pageBytes * pageBytes

structure FileRange where
  offset : Nat
  bytes : Nat
  deriving DecidableEq, Repr

namespace FileRange

/-- `Range::end` -/
def last (range : FileRange) : Except StorageFailure Nat := do
  let last ← checkedAdd range.offset range.bytes "file extent overflow"
  checkedOffset last "file extent overflow"
  return last

/-- The pages a range touches. -/
def pages (range : FileRange) : Finset Nat :=
  Finset.Ico (range.offset / pageBytes)
    ((range.offset + range.bytes + (pageBytes - 1)) / pageBytes)

/-- The pages that lie inside a range. -/
def wholePages (range : FileRange) : Finset Nat :=
  Finset.Ico ((range.offset + (pageBytes - 1)) / pageBytes)
    ((range.offset + range.bytes) / pageBytes)

end FileRange

inductive RangeCoverage where
  | exact
  | coverPages
  deriving DecidableEq, Repr

namespace FileHandle

/-- The first loop of `normalize_ranges`. -/
def coverRange (coverage : RangeCoverage) (range : FileRange) :
    Except StorageFailure (Option FileRange) := do
  let last ← range.last
  if range.bytes = 0 then return none
  match coverage with
  | .exact => return some range
  | .coverPages =>
      let offset := range.offset / pageBytes * pageBytes
      let reach ← pageCeil last "file page extent overflow"
      let covered : FileRange := ⟨offset, reach - offset⟩
      let _ ← covered.last
      return some covered

def coverRanges (coverage : RangeCoverage) :
    List FileRange → Except StorageFailure (List FileRange)
  | [] => .ok []
  | range :: rest => do
      let covered ← coverRange coverage range
      let others ← coverRanges coverage rest
      return covered.toList ++ others

/-- The second loop: a range either extends the one before it or follows it. -/
def mergeRanges (merged : List FileRange) (previous : FileRange) :
    List FileRange → Except StorageFailure (List FileRange)
  | [] => .ok (merged ++ [previous])
  | range :: rest => do
      let reach ← previous.last
      if range.offset ≤ reach then
        let last ← range.last
        mergeRanges merged ⟨previous.offset, max reach last - previous.offset⟩ rest
      else mergeRanges (merged ++ [previous]) range rest

def normalizeRanges (input : List FileRange) (coverage : RangeCoverage) :
    Except StorageFailure (List FileRange) := do
  let ranges ← coverRanges coverage input
  match ranges.insertionSort fun left right => left.offset ≤ right.offset with
  | [] => return []
  | first :: rest => mergeRanges [] first rest

end FileHandle

/-! What the system answers.  A call that fails may have changed backing first; a call that was
interrupted is made again, and counts as part of the answer that settles it. -/

inductive Fallocate where
  | granted
  | failed (code : Nat) (gained : Finset Nat)
  | cancelled (gained : Finset Nat)
  deriving DecidableEq

inductive PunchHole where
  | punched
  | unsupported
  | failed (code : Nat) (lost : Finset Nat)
  | cancelled (lost : Finset Nat)
  deriving DecidableEq

inductive Ftruncate where
  | truncated
  | failed (code : Nat)
  | cancelled
  deriving DecidableEq

structure File where
  size : Nat
  /-- Pages with backing. -/
  allocated : Finset Nat
  /-- Pages that `fallocate` granted to the call in progress. -/
  granted : Finset Nat

namespace File

def allocate (file : File) (range : FileRange) : File where
  size := max file.size (range.offset + range.bytes)
  allocated := file.allocated ∪ range.pages
  granted := file.granted ∪ range.pages

def gain (file : File) (pages : Finset Nat) : File :=
  { file with allocated := file.allocated ∪ pages }

def punch (file : File) (range : FileRange) : File :=
  { file with allocated := file.allocated \ range.wholePages }

def lose (file : File) (range : FileRange) (pages : Finset Nat) : File :=
  { file with allocated := file.allocated \ (range.wholePages ∩ pages) }

def truncate (file : File) (bytes : Nat) : File :=
  { file with
    size := bytes
    allocated := file.allocated.filter fun page => page < (bytes + (pageBytes - 1)) / pageBytes }

end File

namespace FileHandle

abbrev Call := Transaction File FileFailure

def checked {α : Type} (result : Except StorageFailure α) : Call α :=
  .lift (result.mapError .storage)

def resizeSparse (bytes : Nat) (answer : Ftruncate) : Call Unit := do
  checked (checkedOffset bytes "sparse file size overflow")
  match answer with
  | .truncated => .modify fun file => file.truncate bytes
  | .failed code => .fail (.storage (.system code "sparse file resize failed"))
  | .cancelled => .fail (.runtime "file resize cancelled")

/-- Without a cancellation; the file is at least made sparse. -/
def preallocate (bytes : Nat) (answer : Fallocate) (resized : Ftruncate) : Call Unit := do
  checked (checkedOffset bytes "file size overflow")
  match answer with
  | .granted => .modify fun file => file.allocate ⟨0, bytes⟩
  | .failed _ gained | .cancelled gained => do
      .modify fun file => file.gain gained
      resizeSparse bytes resized

def checkRanges : List FileRange → Call Unit
  | [] => return ()
  | range :: rest => do
      let _ ← checked range.last
      checkRanges rest

def allocateEach (answers : Nat → Fallocate) (index : Nat) : List FileRange → Call Unit
  | [] => return ()
  | range :: rest => do
      if range.bytes = 0 then allocateEach answers (index + 1) rest
      else
        match answers index with
        | .granted => do
            .modify fun file => file.allocate range
            allocateEach answers (index + 1) rest
        | .failed code gained => do
            .modify fun file => file.gain gained
            .fail (.storage (.system code "file extent allocation failed"))
        | .cancelled gained => do
            .modify fun file => file.gain gained
            .fail (.runtime "file allocation cancelled")

def allocateRanges (ranges : List FileRange) (answers : Nat → Fallocate) : Call Unit := do
  checkRanges ranges
  allocateEach answers 0 ranges

/-- Whether every range was punched, and how many were. -/
def punchEach (answers : Nat → PunchHole) (completed : Nat) : List FileRange → Call (Bool × Nat)
  | [] => return (true, completed)
  | range :: rest => do
      if range.bytes = 0 then punchEach answers (completed + 1) rest
      else
        match answers completed with
        | .punched => do
            .modify fun file => file.punch range
            punchEach answers (completed + 1) rest
        | .unsupported => return (false, completed)
        | .failed code lost => do
            .modify fun file => file.lose range lost
            .fail (.storage (.system code "file extent reclaim failed"))
        | .cancelled lost => do
            .modify fun file => file.lose range lost
            .fail (.runtime "file reclamation cancelled")

def punchHoles (ranges : List FileRange) (answers : Nat → PunchHole) : Call (Bool × Nat) := do
  checkRanges ranges
  punchEach answers 0 ranges

end FileHandle

/-! What `normalize_ranges` returns. -/

structure FileRange.Proper (coverage : RangeCoverage) (range : FileRange) : Prop where
  positive : 0 < range.bytes
  bounded : range.offset + range.bytes < offsetLimit
  aligned : coverage = .coverPages →
    pageBytes ∣ range.offset ∧ pageBytes ∣ range.offset + range.bytes

theorem checkedOffset_ok {value : Nat} {message : String}
    (h : checkedOffset value message = .ok ()) : value < offsetLimit := by
  rw [checkedOffset.eq_def] at h
  split at h
  · assumption
  · cases h

theorem pageCeil_ok {offset reach : Nat} {message : String}
    (h : pageCeil offset message = .ok reach) :
    reach = (offset + (pageBytes - 1)) / pageBytes * pageBytes := by
  rw [pageCeil] at h
  obtain ⟨sum, hsum, h⟩ := bind_eq_ok.mp h
  cases h
  rw [(Ledgers.checkedAdd_ok hsum).1]

theorem pageCeil_eq {offset : Nat} {message : String} (h : offset < offsetLimit) :
    pageCeil offset message = .ok ((offset + (pageBytes - 1)) / pageBytes * pageBytes) := by
  have hword : offset + (pageBytes - 1) < wordLimit := by
    simp only [offsetLimit, wordLimit, pageBytes] at *
    omega
  rw [pageCeil, checkedAdd, if_pos hword]
  rfl

-- both lemmas say what unification should not compute
attribute [irreducible] pageCeil

theorem FileRange.last_ok {range : FileRange} {last : Nat} (h : range.last = .ok last) :
    last = range.offset + range.bytes ∧ last < offsetLimit := by
  obtain ⟨sum, hsum, h⟩ := bind_eq_ok.mp h
  obtain ⟨_, hoffset, h⟩ := bind_eq_ok.mp h
  cases h
  exact ⟨(Ledgers.checkedAdd_ok hsum).1, checkedOffset_ok hoffset⟩

theorem FileRange.last_eq {range : FileRange} (h : range.offset + range.bytes < offsetLimit) :
    range.last = .ok (range.offset + range.bytes) := by
  have hword : range.offset + range.bytes < wordLimit := Nat.lt_trans h (by decide)
  simp only [FileRange.last, checkedAdd, if_pos hword, checkedOffset, if_pos h, bind, Except.bind]
  rfl

namespace FileHandle

variable {coverage : RangeCoverage}

theorem coverRange_ok {range covered : FileRange}
    (h : coverRange coverage range = .ok (some covered)) : covered.Proper coverage := by
  obtain ⟨last, hlast, h⟩ := bind_eq_ok.mp h
  obtain ⟨heq, hbounded⟩ := FileRange.last_ok hlast
  split at h
  · cases h
  next hbytes =>
  have hpositive := Nat.pos_of_ne_zero hbytes
  cases coverage with
  | exact =>
      cases h
      exact ⟨hpositive, heq ▸ hbounded, fun hpages => nomatch hpages⟩
  | coverPages =>
      obtain ⟨reach, hreach, h⟩ := bind_eq_ok.mp h
      obtain ⟨covered_last, hcovered, h⟩ := bind_eq_ok.mp h
      cases h
      have hceil := pageCeil_ok hreach
      have hlt : range.offset / pageBytes * pageBytes < reach := by
        simp only [pageBytes] at hceil ⊢
        omega
      have hend : range.offset / pageBytes * pageBytes +
          (reach - range.offset / pageBytes * pageBytes) = reach :=
        Nat.add_sub_cancel' (Nat.le_of_lt hlt)
      refine ⟨Nat.sub_pos_of_lt hlt, ?_, fun _ => ⟨⟨_, Nat.mul_comm _ _⟩, ?_⟩⟩
      · exact (FileRange.last_ok hcovered).1 ▸ (FileRange.last_ok hcovered).2
      · exact ⟨_, hend.trans (hceil.trans (Nat.mul_comm _ _))⟩

theorem coverRanges_ok {input ranges : List FileRange}
    (h : coverRanges coverage input = .ok ranges) : ∀ range ∈ ranges, range.Proper coverage := by
  induction input generalizing ranges with
  | nil =>
      cases h
      exact fun range hmem => absurd hmem List.not_mem_nil
  | cons range rest ih =>
      obtain ⟨covered, hcovered, h⟩ := bind_eq_ok.mp h
      obtain ⟨others, hothers, h⟩ := bind_eq_ok.mp h
      cases h
      intro other hmem
      rcases List.mem_append.mp hmem with hin | hin
      · cases covered with
        | none => exact absurd hin List.not_mem_nil
        | some proper =>
            rw [List.mem_singleton.mp hin]
            exact coverRange_ok hcovered
      · exact ih hothers other hin

theorem mergeRanges_ok {merged rest ranges : List FileRange} {previous : FileRange}
    (h : mergeRanges merged previous rest = .ok ranges)
    (hmerged : ∀ range ∈ merged, range.Proper coverage) (hprevious : previous.Proper coverage)
    (hrest : ∀ range ∈ rest, range.Proper coverage) : ∀ range ∈ ranges, range.Proper coverage := by
  induction rest generalizing merged previous with
  | nil =>
      cases h
      intro range hmem
      rcases List.mem_append.mp hmem with hin | hin
      · exact hmerged range hin
      · exact List.mem_singleton.mp hin ▸ hprevious
  | cons range rest ih =>
      have hrange := hrest range List.mem_cons_self
      have hlater : ∀ other ∈ rest, other.Proper coverage :=
        fun other hin => hrest other (List.mem_cons_of_mem _ hin)
      obtain ⟨reach, hreach, h⟩ := bind_eq_ok.mp h
      obtain ⟨hreach, -⟩ := FileRange.last_ok hreach
      split at h
      · obtain ⟨last, hlast, h⟩ := bind_eq_ok.mp h
        obtain ⟨hlast, -⟩ := FileRange.last_ok hlast
        refine ih h hmerged ?_ hlater
        have hpositive := hprevious.positive
        have hend : previous.offset + (max reach last - previous.offset) = max reach last := by
          omega
        refine ⟨?_, ?_, fun hpages => ⟨(hprevious.aligned hpages).1, ?_⟩⟩
        · show 0 < max reach last - previous.offset
          omega
        · rw [hend, hreach, hlast]
          exact Nat.max_lt.mpr ⟨hprevious.bounded, hrange.bounded⟩
        · rw [hend, hreach, hlast]
          rcases Nat.le_total (previous.offset + previous.bytes) (range.offset + range.bytes)
            with hle | hle
          · exact (Nat.max_eq_right hle).symm ▸ (hrange.aligned hpages).2
          · exact (Nat.max_eq_left hle).symm ▸ (hprevious.aligned hpages).2
      · refine ih h ?_ hrange hlater
        intro other hmem
        rcases List.mem_append.mp hmem with hin | hin
        · exact hmerged other hin
        · exact List.mem_singleton.mp hin ▸ hprevious

theorem normalizeRanges_ok {input ranges : List FileRange}
    (h : normalizeRanges input coverage = .ok ranges) :
    ∀ range ∈ ranges, range.Proper coverage := by
  obtain ⟨covered, hcovered, h⟩ := bind_eq_ok.mp h
  have hproper := coverRanges_ok hcovered
  have hsorted : ∀ range ∈ covered.insertionSort fun left right => left.offset ≤ right.offset,
      range.Proper coverage := fun range hmem => hproper range ((List.mem_insertionSort _).mp hmem)
  split at h
  · cases h
    exact fun range hmem => absurd hmem List.not_mem_nil
  · next first rest heq =>
      rw [heq] at hsorted
      exact mergeRanges_ok h (fun range hmem => absurd hmem List.not_mem_nil)
        (hsorted first List.mem_cons_self)
        fun range hmem => hsorted range (List.mem_cons_of_mem _ hmem)

end FileHandle

/-! What a call leaves of the file. -/

/-- Nothing is taken back, and lengths stay offsets. -/
structure File.Grown (file after : File) : Prop where
  size : file.size ≤ after.size
  bounded : file.size < offsetLimit → after.size < offsetLimit
  allocated : file.allocated ⊆ after.allocated
  granted : file.granted ⊆ after.granted

structure File.Holds (file : File) (range : FileRange) : Prop where
  extent : range.offset + range.bytes ≤ file.size
  allocated : range.pages ⊆ file.allocated
  granted : range.pages ⊆ file.granted

/-- Only whole pages of the ranges lose their backing. -/
structure File.Shed (ranges : List FileRange) (file after : File) : Prop where
  size : after.size = file.size
  granted : after.granted = file.granted
  pages : ∀ page ∈ file.allocated, page ∉ after.allocated →
    ∃ range ∈ ranges, page ∈ range.wholePages

namespace File

variable {file middle after : File} {range : FileRange}

theorem Grown.refl : Grown file file where
  size := Nat.le_refl _
  bounded := id
  allocated := Finset.Subset.refl _
  granted := Finset.Subset.refl _

theorem Grown.trans (h : Grown file middle) (hafter : Grown middle after) : Grown file after where
  size := Nat.le_trans h.size hafter.size
  bounded := hafter.bounded ∘ h.bounded
  allocated := Finset.Subset.trans h.allocated hafter.allocated
  granted := Finset.Subset.trans h.granted hafter.granted

theorem Grown.gain (pages : Finset Nat) : Grown file (file.gain pages) where
  size := Nat.le_refl _
  bounded := id
  allocated := Finset.subset_union_left
  granted := Finset.Subset.refl _

theorem Grown.allocate (h : range.offset + range.bytes < offsetLimit) :
    Grown file (file.allocate range) where
  size := Nat.le_max_left _ _
  bounded hsize := Nat.max_lt.mpr ⟨hsize, h⟩
  allocated := Finset.subset_union_left
  granted := Finset.subset_union_left

theorem Holds.allocate : (file.allocate range).Holds range where
  extent := Nat.le_max_right _ _
  allocated := Finset.subset_union_right
  granted := Finset.subset_union_right

theorem Holds.grown (h : file.Holds range) (hgrown : Grown file after) : after.Holds range where
  extent := Nat.le_trans h.extent hgrown.size
  allocated := Finset.Subset.trans h.allocated hgrown.allocated
  granted := Finset.Subset.trans h.granted hgrown.granted

theorem Shed.refl {ranges : List FileRange} : Shed ranges file file where
  size := rfl
  granted := rfl
  pages _ hin hout := absurd hin hout

theorem Shed.lose {ranges : List FileRange} (h : Shed ranges file middle) (pages : Finset Nat) :
    Shed (ranges ++ [range]) file (middle.lose range pages) where
  size := h.size
  granted := h.granted
  pages page hin hout := by
    by_cases hmiddle : page ∈ middle.allocated
    · refine ⟨range, List.mem_append_right _ (List.mem_singleton_self _), ?_⟩
      by_contra hwhole
      apply hout
      refine Finset.mem_sdiff.mpr ⟨hmiddle, fun hlost => hwhole (Finset.mem_inter.mp hlost).1⟩
    · obtain ⟨other, hmem, hwhole⟩ := h.pages page hin hmiddle
      exact ⟨other, List.mem_append_left _ hmem, hwhole⟩

theorem punch_eq_lose : file.punch range = file.lose range range.wholePages := by
  rw [punch, lose, Finset.inter_self]

theorem Shed.mono {ranges more : List FileRange} (h : Shed ranges file after)
    (hsub : ∀ range ∈ ranges, range ∈ more) : Shed more file after where
  size := h.size
  granted := h.granted
  pages page hin hout := by
    obtain ⟨range, hmem, hwhole⟩ := h.pages page hin hout
    exact ⟨range, hsub range hmem, hwhole⟩

end File

namespace FileHandle

open Transaction

variable {coverage : RangeCoverage} {ranges : List FileRange} {file : File}

theorem checkRanges_ensures : Ensures (fun before => before = file) (checkRanges ranges)
    (fun _ after => after = file) fun _ after => after = file := by
  induction ranges with
  | nil => exact .pure fun _ h => h
  | cons range rest ih => exact .lift_bind (fun _ _ => ih) fun _ _ _ h => h

theorem allocateEach_ensures {answers : Nat → Fallocate} {index : Nat}
    (h : ∀ range ∈ ranges, range.Proper coverage) :
    Ensures (fun before => before = file) (allocateEach answers index ranges)
      (fun _ after => file.Grown after ∧ ∀ range ∈ ranges, after.Holds range)
      fun _ after => file.Grown after := by
  induction ranges generalizing file index with
  | nil =>
      apply Ensures.pure
      intro after heq
      exact ⟨heq ▸ .refl, fun range hmem => absurd hmem List.not_mem_nil⟩
  | cons range rest ih =>
      have hrange := h range List.mem_cons_self
      rw [allocateEach, if_neg (Nat.ne_of_gt hrange.positive)]
      cases answers index with
      | granted =>
          apply Ensures.modify_bind
          intro state heq
          subst heq
          have hgrown : state.Grown (state.allocate range) := .allocate hrange.bounded
          apply (ih fun other hin => h other (List.mem_cons_of_mem _ hin)).consequence
          · exact fun _ h => h
          · intro _ after hrest
            refine ⟨hgrown.trans hrest.1, fun other hmem => ?_⟩
            rcases List.mem_cons.mp hmem with heq | hin
            · exact heq ▸ File.Holds.allocate.grown hrest.1
            · exact hrest.2 other hin
          · exact fun _ after hrest => hgrown.trans hrest
      | failed code gained =>
          apply Ensures.modify_bind
          intro state heq
          exact .fail fun after hafter => hafter ▸ heq ▸ .gain gained
      | cancelled gained =>
          apply Ensures.modify_bind
          intro state heq
          exact .fail fun after hafter => hafter ▸ heq ▸ .gain gained

theorem allocateRanges_ensures {answers : Nat → Fallocate}
    (h : ∀ range ∈ ranges, range.Proper coverage) :
    Ensures (fun before => before = file) (allocateRanges ranges answers)
      (fun _ after => file.Grown after ∧ ∀ range ∈ ranges, after.Holds range)
      fun _ after => file.Grown after := by
  apply Ensures.bind (checkRanges_ensures.consequence (fun _ h => h) (fun _ _ h => h) ?_)
  · exact fun _ => allocateEach_ensures h
  · exact fun _ after heq => heq ▸ .refl

theorem punchEach_ensures {answers : Nat → PunchHole} {punched : List FileRange}
    (h : ∀ range ∈ ranges, range.Proper coverage) :
    Ensures (File.Shed punched file) (punchEach answers punched.length ranges)
      (fun result after => File.Shed ((punched ++ ranges).take result.2) file after)
      fun _ after => File.Shed (punched ++ ranges) file after := by
  induction ranges generalizing punched with
  | nil =>
      apply Ensures.pure
      intro after hshed
      rwa [List.append_nil, List.take_length]
  | cons range rest ih =>
      have hnext : punched.length + 1 = (punched ++ [range]).length := by simp
      have hlost : ∀ {state after : File} {pages : Finset Nat}, File.Shed punched file state →
          after = state.lose range pages → File.Shed (punched ++ range :: rest) file after := by
        intro state after pages hshed heq
        rw [heq, List.append_cons]
        exact (hshed.lose pages).mono fun other hmem => List.mem_append_left _ hmem
      rw [punchEach, if_neg (Nat.ne_of_gt (h range List.mem_cons_self).positive)]
      cases answers punched.length with
      | punched =>
          apply Ensures.modify_bind
          intro state hshed
          rw [hnext, List.append_cons punched range rest]
          apply (ih fun other hin => h other (List.mem_cons_of_mem _ hin)).consequence
          · intro after heq
            rw [heq, File.punch_eq_lose]
            exact hshed.lose _
          · exact fun _ _ h => h
          · exact fun _ _ h => h
      | unsupported =>
          apply Ensures.pure
          intro after hshed
          rwa [List.take_left']
          rfl
      | failed code lost =>
          apply Ensures.modify_bind
          intro state hshed
          exact .fail fun after hafter => hlost hshed hafter
      | cancelled lost =>
          apply Ensures.modify_bind
          intro state hshed
          exact .fail fun after hafter => hlost hshed hafter

theorem punchHoles_ensures {answers : Nat → PunchHole}
    (h : ∀ range ∈ ranges, range.Proper coverage) :
    Ensures (fun before => before = file) (punchHoles ranges answers)
      (fun result after => File.Shed (ranges.take result.2) file after)
      fun _ after => File.Shed ranges file after := by
  apply Ensures.bind (checkRanges_ensures.consequence (fun _ h => h) (fun _ _ h => h) ?_)
  · intro _
    have heach : Ensures (File.Shed [] file) (punchEach answers 0 ranges) _ _ :=
      punchEach_ensures h
    apply heach.consequence
    · exact fun after heq => heq ▸ File.Shed.refl
    · exact fun _ _ h => h
    · exact fun _ _ h => h
  · exact fun _ after heq => heq ▸ File.Shed.refl

end FileHandle

end Mmltk.Storage
