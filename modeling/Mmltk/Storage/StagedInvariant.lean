import Mmltk.Storage.StagedArtifact

namespace Mmltk.Storage

open Mmltk.Foundation Mmltk.Foundation.Transaction

/-! The reservation under the operations of an artifact. -/

namespace Ledgers

variable {ledgers : Ledgers} {id : Nat}

theorem replaceOutstanding_reservations {filesystem : Filesystem} {previous required : Nat}
    {sample : Bool} {status : VolumeStatus} {description : String} :
    (ledgers.replaceOutstanding filesystem previous required sample status
      description).ledgers.reservations = ledgers.reservations := by
  rw [replaceOutstanding]
  split
  · rfl
  · rfl

theorem replace_destination {promised allocated : Nat} {description : String} {sample : Bool}
    {status : VolumeStatus} :
    ((ledgers.replace id promised allocated description sample
      status).ledgers.reservations.get id).destination =
        (ledgers.reservations.get id).destination := by
  rw [replace]
  split
  · rfl
  · simp only
    split
    · rw [replaceOutstanding_reservations]
    · simp [Settled.done, replaceOutstanding_reservations]

theorem resize_allocated {promised : Nat} {description : String} {status : VolumeStatus} :
    ((ledgers.resize id promised description status).ledgers.reservations.get id).allocated =
      (ledgers.reservations.get id).allocated := by
  rw [resize, replace]
  split
  · rfl
  · simp only
    split
    · rw [replaceOutstanding_reservations]
    · simp [Settled.done]

theorem reconcileAllocated_destination {allocated : Nat} :
    ((ledgers.reconcileAllocated id allocated).ledgers.reservations.get id).destination =
      (ledgers.reservations.get id).destination := by
  rw [reconcileAllocated]
  split
  · rfl
  · simp only
    split
    · rfl
    · simp [Settled.done]

theorem reconcileAllocated_allocated {allocated : Nat}
    (hdestination : (ledgers.reservations.get id).destination.isSome)
    (h : (ledgers.reconcileAllocated id allocated).failure = none) :
    ((ledgers.reconcileAllocated id allocated).ledgers.reservations.get id).allocated =
      allocated := by
  rw [reconcileAllocated] at h ⊢
  split at h
  · next hnone =>
      rw [hnone] at hdestination
      cases hdestination
  · simp only at h ⊢
    split at h
    · cases h
    · simp [Settled.done]

end Ledgers

/-- The end of the last page of a file. -/
def File.extent (file : File) : Nat := (file.size + (pageBytes - 1)) / pageBytes * pageBytes

theorem File.extent_le {file after : File} (h : file.size ≤ after.size) :
    file.extent ≤ after.extent :=
  Nat.mul_le_mul_right _ (Nat.div_le_div_right (Nat.add_le_add_right h _))

theorem File.extent_lt {file : File} (h : file.size < offsetLimit) :
    file.extent < wordLimit - 1 := by
  have := Nat.div_mul_le_self (file.size + (pageBytes - 1)) pageBytes
  simp only [extent, offsetLimit, wordLimit, pageBytes] at *
  omega

namespace StagedArtifact

/-! What is known of the backing while a call runs that found `before` in the map. -/

/-- A map inside the file that covers nothing but what it found and what it was granted. -/
structure Recorded (before occupied : List Interval) (file : File) : Prop where
  separated : Separated pageBytes occupied
  extent : ∀ address, Covered occupied address → address < file.extent
  source : ∀ address, Covered occupied address →
    Covered before address ∨ address / pageBytes ∈ file.granted
  bounded : file.size < offsetLimit

structure Known (before occupied : List Interval) (file : File) : Prop
    extends Recorded before occupied file where
  backed : ∀ address, Covered occupied address → address / pageBytes ∈ file.allocated

/-- Backing may be gone, but only inside the ranges. -/
structure Doubtful (ranges : List FileRange) (before occupied : List Interval) (file : File) : Prop
    extends Recorded before occupied file where
  backed : ∀ address, Covered occupied address → address / pageBytes ∈ file.allocated ∨
    ∃ range ∈ ranges, address / pageBytes ∈ range.wholePages

theorem pageBytes_pos : 0 < pageBytes := by decide

namespace Known

variable {before occupied after : List Interval} {file other : File} {range : FileRange}

theorem clear (h : file.size < offsetLimit) : Known before [] file where
  separated := .nil
  extent _ hin := absurd hin covered_nil
  backed _ hin := absurd hin covered_nil
  source _ hin := absurd hin covered_nil
  bounded := h

theorem grown (h : Known before occupied file) (hgrown : file.Grown other) :
    Known before occupied other where
  separated := h.separated
  extent address hin := Nat.lt_of_lt_of_le (h.extent address hin) (File.extent_le hgrown.size)
  backed address hin := hgrown.allocated (h.backed address hin)
  source address hin := (h.source address hin).imp_right fun hgranted => hgrown.granted hgranted
  bounded := hgrown.bounded h.bounded

theorem doubtful (h : Known before occupied file) {ranges : List FileRange}
    (hshed : File.Shed ranges file other) : Doubtful ranges before occupied other where
  separated := h.separated
  extent address hin := by
    rw [File.extent, hshed.size]
    exact h.extent address hin
  backed address hin := by
    by_cases hkept : address / pageBytes ∈ other.allocated
    · exact .inl hkept
    · exact .inr (hshed.pages _ (h.backed address hin) hkept)
  source address hin := by
    rw [hshed.granted]
    exact h.source address hin
  bounded := hshed.size ▸ h.bounded

theorem of_doubtful (h : Doubtful [] before occupied file) : Known before occupied file where
  toRecorded := h.toRecorded
  backed address hin := (h.backed address hin).resolve_right
    fun ⟨_, hmem, _⟩ => List.not_mem_nil hmem

/-- The pages of a page-aligned range are those of its addresses. -/
theorem page_mem (h : range.Proper .coverPages) {address : Nat}
    (hin : range.offset ≤ address ∧ address < range.offset + range.bytes) :
    address / pageBytes ∈ range.pages := by
  obtain ⟨⟨first, hfirst⟩, last, hlast⟩ := h.aligned rfl
  rw [FileRange.pages, Finset.mem_Ico, hlast, hfirst, Nat.mul_div_cancel_left _ pageBytes_pos]
  simp only [pageBytes] at *
  omega

theorem occupy (h : Known before occupied file) (hrange : range.Proper .coverPages)
    (hholds : file.Holds range) (hseparated : Separated pageBytes after)
    (hcovered : ∀ address, Covered after address ↔
      Covered occupied address ∨ range.offset ≤ address ∧ address < range.offset + range.bytes) :
    Known before after file where
  separated := hseparated
  extent address hin := by
    rcases (hcovered address).mp hin with hold | hnew
    · exact h.extent address hold
    · have hreach := hholds.extent
      have hlt := hnew.2
      simp only [File.extent, pageBytes]
      omega
  backed address hin := by
    rcases (hcovered address).mp hin with hold | hnew
    · exact h.backed address hold
    · exact hholds.allocated (page_mem hrange hnew)
  source address hin := by
    rcases (hcovered address).mp hin with hold | hnew
    · exact h.source address hold
    · exact .inr (hholds.granted (page_mem hrange hnew))
  bounded := h.bounded

/-- Truncation takes the backing past its end, and the map forgets that. -/
theorem truncate (h : Known before occupied file) {bytes : Nat} (hbytes : bytes < offsetLimit)
    (hseparated : Separated pageBytes after)
    (hcovered : ∀ address, Covered after address ↔ Covered occupied address ∧
      ¬((file.truncate bytes).extent ≤ address ∧ address < wordLimit - 1)) :
    Known before after (file.truncate bytes) := by
  have hinside : ∀ address, Covered after address →
      Covered occupied address ∧ address < (file.truncate bytes).extent := by
    intro address hin
    obtain ⟨hold, hkept⟩ := (hcovered address).mp hin
    have hlt := h.extent address hold
    have hword := File.extent_lt h.bounded
    exact ⟨hold, by omega⟩
  refine ⟨⟨hseparated, fun address hin => (hinside address hin).2, ?_, hbytes⟩, ?_⟩
  · intro address hin
    exact h.source address (hinside address hin).1
  · intro address hin
    obtain ⟨hold, hlt⟩ := hinside address hin
    exact Finset.mem_filter.mpr ⟨h.backed address hold,
      (Nat.div_lt_iff_lt_mul pageBytes_pos).mpr hlt⟩

end Known

namespace Doubtful

variable {before occupied after : List Interval} {file : File} {range : FileRange}
  {ranges : List FileRange}

theorem forget (h : Doubtful (range :: ranges) before occupied file)
    (hseparated : Separated pageBytes after)
    (hcovered : ∀ address, Covered after address ↔ Covered occupied address ∧
      ¬((range.offset + (pageBytes - 1)) / pageBytes * pageBytes ≤ address ∧
        address < (range.offset + range.bytes) / pageBytes * pageBytes)) :
    Doubtful ranges before after file where
  separated := hseparated
  extent address hin := h.extent address ((hcovered address).mp hin).1
  backed address hin := by
    obtain ⟨hold, houtside⟩ := (hcovered address).mp hin
    refine (h.backed address hold).imp_right fun ⟨other, hmem, hwhole⟩ => ?_
    rcases List.mem_cons.mp hmem with heq | hlater
    · subst heq
      rw [FileRange.wholePages, Finset.mem_Ico, Nat.le_div_iff_mul_le pageBytes_pos,
        Nat.div_lt_iff_lt_mul pageBytes_pos] at hwhole
      exact absurd hwhole houtside
    · exact ⟨other, hlater, hwhole⟩
  source address hin := h.source address ((hcovered address).mp hin).1
  bounded := h.bounded

end Doubtful

end StagedArtifact

end Mmltk.Storage
