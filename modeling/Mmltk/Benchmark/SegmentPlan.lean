import Mathlib.Algebra.BigOperators.Group.List.Basic
import Mathlib.Algebra.GroupWithZero.Nat
import Mmltk.Benchmark.Download

namespace Mmltk.Benchmark

/-! How an artifact is divided among ranged requests, and which division a checkpoint may carry. -/

def segmentedDownloadThreshold : Nat := 512 * 1024 * 1024

def minimumSegmentBytes : Nat := 64 * 1024 * 1024

def DownloadSegment.extent (segment : DownloadSegment) : Nat := segment.last + 1 - segment.start

def segmentsForSize (size : Nat) : Nat :=
  size / minimumSegmentBytes + if size % minimumSegmentBytes ≠ 0 then 1 else 0

def initialSegmentCount (concurrency size : Nat) : Nat :=
  max 1 (min concurrency (segmentsForSize size))

/-- The segments from `index` on, of which `left` are left. -/
def initialFrom (base remainder : Nat) (index next : Nat) : Nat → List DownloadSegment
  | 0 => []
  | left + 1 =>
      let extent := base + if index < remainder then 1 else 0
      ⟨next, next + extent - 1, 0, 0⟩ ::
        initialFrom base remainder (index + 1) (next + extent) left

def initialSegments (size count : Nat) : List DownloadSegment :=
  initialFrom (size / count) (size % count) 0 0 count

/-- Segments one after the other from `next` to `size`, none with more than its own bytes. -/
def segmentsCover (size : Nat) : Nat → List DownloadSegment → Bool
  | next, [] => next = size
  | next, segment :: rest =>
      segment.start = next && segment.start ≤ segment.last && segment.last < size &&
        segment.completed ≤ segment.last - segment.start + 1 &&
        segmentsCover size (segment.last + 1) rest

variable {size next : Nat} {segments : List DownloadSegment} {segment : DownloadSegment}

theorem segmentsCover_cons :
    segmentsCover size next (segment :: segments) = true ↔
      segment.start = next ∧ segment.start ≤ segment.last ∧ segment.last < size ∧
        segment.completed ≤ segment.extent ∧
        segmentsCover size (segment.last + 1) segments = true := by
  simp only [segmentsCover, Bool.and_eq_true, decide_eq_true_eq, DownloadSegment.extent]
  constructor
  · rintro ⟨⟨⟨⟨hstart, hordered⟩, hlast⟩, hcompleted⟩, hrest⟩
    exact ⟨hstart, hordered, hlast, by omega, hrest⟩
  · rintro ⟨hstart, hordered, hlast, hcompleted, hrest⟩
    exact ⟨⟨⟨⟨hstart, hordered⟩, hlast⟩, by omega⟩, hrest⟩

theorem initialFrom_cover {base remainder : Nat} (hbase : 0 < base) (left index next : Nat)
    (hsize : next + left * base + min left (remainder - index) = size) :
    segmentsCover size next (initialFrom base remainder index next left) = true := by
  induction left generalizing index next with
  | zero => simpa [initialFrom, segmentsCover] using hsize
  | succ left ih =>
      rw [Nat.succ_mul] at hsize
      have hextent : next + (base + if index < remainder then 1 else 0) + left * base +
          min left (remainder - (index + 1)) = size := by
        split <;> omega
      rw [initialFrom]
      generalize hown : (base + if index < remainder then 1 else 0) = extent at hextent
      have hbound : base ≤ extent := by omega
      have hlast : next + extent - 1 + 1 = next + extent := by omega
      refine segmentsCover_cons.mpr ⟨rfl, ?_, ?_, Nat.zero_le _, ?_⟩
      · change next ≤ next + extent - 1
        omega
      · change next + extent - 1 < size
        omega
      · rw [hlast]
        exact ih _ _ hextent

theorem initialSegments_cover {count : Nat} (hcount : 0 < count) (hsize : count ≤ size) :
    segmentsCover size 0 (initialSegments size count) = true := by
  refine initialFrom_cover (Nat.div_pos hsize hcount) count 0 0 ?_
  have hrest := Nat.mod_lt size hcount
  have hdivided := Nat.div_add_mod size count
  rw [Nat.sub_zero, Nat.min_eq_right hrest.le]
  omega

theorem initialSegmentCount_pos (concurrency : Nat) : 0 < initialSegmentCount concurrency size :=
  Nat.lt_of_lt_of_le Nat.zero_lt_one (Nat.le_max_left _ _)

theorem initialSegmentCount_le (concurrency : Nat) (hsize : 0 < size) :
    initialSegmentCount concurrency size ≤ size := by
  have hcount : segmentsForSize size ≤ size := by
    rw [segmentsForSize, minimumSegmentBytes]
    split <;> omega
  exact Nat.max_le.mpr ⟨hsize, (Nat.min_le_right _ _).trans hcount⟩

theorem segmentsCover_get (h : segmentsCover size next segments = true) {index : Nat}
    (hget : segments[index]? = some segment) :
    next ≤ segment.start ∧ segment.start ≤ segment.last ∧ segment.last < size ∧
      segment.completed ≤ segment.extent := by
  induction segments generalizing next index with
  | nil => simp at hget
  | cons head rest ih =>
      obtain ⟨hstart, hordered, hlast, hcompleted, hrest⟩ := segmentsCover_cons.mp h
      cases index with
      | zero =>
          cases hget
          exact ⟨hstart.ge, hordered, hlast, hcompleted⟩
      | succ index =>
          obtain ⟨hnext, hinner⟩ := ih hrest hget
          exact ⟨by omega, hinner⟩

theorem segmentsCover_set (h : segmentsCover size next segments = true) {index : Nat}
    (hget : segments[index]? = some segment) {changed : DownloadSegment}
    (hstart : changed.start = segment.start) (hlast : changed.last = segment.last)
    (hcompleted : changed.completed ≤ segment.extent) :
    segmentsCover size next (segments.set index changed) = true := by
  induction segments generalizing next index with
  | nil => simp at hget
  | cons head rest ih =>
      obtain ⟨hhead, hordered, hbound, hbytes, hrest⟩ := segmentsCover_cons.mp h
      cases index with
      | zero =>
          cases hget
          refine segmentsCover_cons.mpr ⟨hstart.trans hhead, ?_, hlast ▸ hbound, ?_, hlast ▸ hrest⟩
          · rw [hstart, hlast]
            exact hordered
          · rw [DownloadSegment.extent, hstart, hlast]
            exact hcompleted
      | succ index =>
          exact segmentsCover_cons.mpr ⟨hhead, hordered, hbound, hbytes, ih hrest hget⟩

theorem segmentsCover_at (h : segmentsCover size next segments = true) {position : Nat}
    (hnext : next ≤ position) (hsize : position < size) :
    ∃ segment ∈ segments, segment.start ≤ position ∧ position ≤ segment.last := by
  induction segments generalizing next with
  | nil =>
      simp only [segmentsCover, decide_eq_true_eq] at h
      omega
  | cons head rest ih =>
      obtain ⟨hstart, -, -, -, hrest⟩ := segmentsCover_cons.mp h
      cases Nat.lt_or_ge head.last position with
      | inl hafter =>
          obtain ⟨found, hfound, hinside⟩ := ih hrest hafter
          exact ⟨found, List.mem_cons_of_mem _ hfound, hinside⟩
      | inr hwithin => exact ⟨head, List.mem_cons_self, by omega, hwithin⟩

theorem segmentsCover_extents (h : segmentsCover size next segments = true) :
    next + (segments.map DownloadSegment.extent).sum = size := by
  induction segments generalizing next with
  | nil => simpa [segmentsCover] using h
  | cons head rest ih =>
      obtain ⟨hstart, hordered, -, -, hrest⟩ := segmentsCover_cons.mp h
      have hinner := ih hrest
      rw [List.map_cons, List.sum_cons, DownloadSegment.extent]
      omega

theorem sum_set_add {values : List Nat} {index old : Nat} (new : Nat)
    (hget : values[index]? = some old) :
    (values.set index new).sum + old = values.sum + new := by
  induction values generalizing index with
  | nil => simp at hget
  | cons head rest ih =>
      cases index with
      | zero =>
          cases hget
          simp only [List.set_cons_zero, List.sum_cons]
          omega
      | succ index =>
          have hrest := ih hget
          simp only [List.set_cons_succ, List.sum_cons]
          omega

end Mmltk.Benchmark
