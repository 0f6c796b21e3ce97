import Mmltk.Compiled.Placement

namespace Mmltk.Compiled

/-! The extents of a compiled file: its metadata, the pixels and labels of each slot, the index. -/

/-- What a file is divided into; the rest is padding. -/
inductive FileExtent where
  | metadata
  | pixels (slot : Nat)
  | labels (slot : Nat)
  | index
  deriving DecidableEq, Repr

/-- From the first byte up to the one after the last. -/
structure ExtentRange where
  first : Nat
  after : Nat
  deriving DecidableEq, Repr

/-- The one ends before the other begins, in one of the two orders. -/
def ExtentRange.Apart (range other : ExtentRange) : Prop :=
  range.after ≤ other.first ∨ other.after ≤ range.first

namespace FileLayout

def Has (layout : FileLayout) : FileExtent → Prop
  | .metadata | .index => True
  | .pixels slot | .labels slot => slot < layout.numSlots

def extent (layout : FileLayout) : FileExtent → Except CompiledError ExtentRange
  | .metadata => .ok ⟨0, fileHeaderBytes + layout.catalogBytes⟩
  | .pixels slot => do
      let offset ← layout.pixelOffset slot
      return ⟨offset, offset + layout.imageStride⟩
  | .labels slot => do
      let offset ← layout.labelOffset slot
      return ⟨offset, offset + layout.labelCapacity⟩
  | .index => .ok ⟨layout.indexOffset, layout.indexOffset + layout.indexSize⟩

/-- The extents as plain numbers. -/
def rangeOf (layout : FileLayout) : FileExtent → ExtentRange
  | .metadata => ⟨0, fileHeaderBytes + layout.catalogBytes⟩
  | .pixels slot =>
      let offset := layout.pixelAt (slot / compiledBlockSlots) (slot % compiledBlockSlots)
      ⟨offset, offset + layout.imageStride⟩
  | .labels slot =>
      let offset := layout.labelAt (slot / compiledBlockSlots) (slot % compiledBlockSlots)
      ⟨offset, offset + layout.labelCapacity⟩
  | .index => ⟨layout.indexOffset, layout.indexOffset + layout.indexSize⟩

namespace Computed

variable {layout : FileLayout} {slots stride labelCapacity catalogBytes slot other : Nat}
  (h : layout.Computed slots stride labelCapacity catalogBytes)
include h

theorem extent_eq {extent : FileExtent} (hhas : layout.Has extent) :
    layout.extent extent = .ok (layout.rangeOf extent) := by
  cases extent with
  | metadata => rfl
  | pixels slot =>
      rw [extent, h.pixelOffset_eq hhas]
      rfl
  | labels slot =>
      rw [extent, h.labelOffset_eq hhas]
      rfl
  | index => rfl

theorem pixels_after :
    (layout.rangeOf (.pixels slot)).after ≤
      layout.pixelAt (slot / compiledBlockSlots) (slot % compiledBlockSlots + 1) := by
  have hpitch := h.stride_le_pitch
  rw [pixelAt_succ, rangeOf, h.stride_eq]
  exact Nat.add_le_add_left hpitch _

theorem labels_after :
    (layout.rangeOf (.labels slot)).after ≤
      layout.labelAt (slot / compiledBlockSlots) (slot % compiledBlockSlots + 1) := by
  have hpitch := h.capacity_le_pitch
  rw [labelAt_succ, rangeOf, h.capacity_eq]
  exact Nat.add_le_add_left hpitch _

/-- The pixels of a block come before its labels. -/
theorem pixels_after_le_label (slot : Nat) :
    (layout.rangeOf (.pixels slot)).after ≤ layout.labelAt (slot / compiledBlockSlots) 0 :=
  h.pixels_after.trans (h.pixelAt_le_labelAt _ (Nat.mod_lt slot (by decide)))

theorem labels_after_le_block (slot : Nat) :
    (layout.rangeOf (.labels slot)).after ≤ layout.blockAt (slot / compiledBlockSlots + 1) :=
  h.labels_after.trans (h.labelAt_le_blockAt _ (Nat.mod_lt slot (by decide)))

theorem pixels_after_le_block (slot : Nat) :
    (layout.rangeOf (.pixels slot)).after ≤ layout.blockAt (slot / compiledBlockSlots + 1) :=
  (h.pixels_after_le_label slot).trans (h.labelAt_le_blockAt _ (Nat.zero_le _))

omit h in
theorem blockAt_le_pixels (slot : Nat) :
    layout.blockAt (slot / compiledBlockSlots) ≤ (layout.rangeOf (.pixels slot)).first :=
  Nat.le_add_right _ _

omit h in
theorem label_le_labels (slot : Nat) :
    layout.labelAt (slot / compiledBlockSlots) 0 ≤ (layout.rangeOf (.labels slot)).first :=
  labelAt_mono layout _ (Nat.zero_le _)

omit h in
theorem blockAt_le_labels (slot : Nat) :
    layout.blockAt (slot / compiledBlockSlots) ≤ (layout.rangeOf (.labels slot)).first :=
  (Nat.le_add_right _ _).trans (Nat.le_add_right _ _)

omit h in
/-- A later slot is in a later block, or later in the same one. -/
theorem later_slot (hlt : slot < other) :
    slot / compiledBlockSlots + 1 ≤ other / compiledBlockSlots ∨
      slot / compiledBlockSlots = other / compiledBlockSlots ∧
        slot % compiledBlockSlots + 1 ≤ other % compiledBlockSlots := by
  unfold compiledBlockSlots
  omega

theorem pixels_before (hlt : slot < other) :
    (layout.rangeOf (.pixels slot)).after ≤ (layout.rangeOf (.pixels other)).first := by
  rcases later_slot hlt with hblock | ⟨hsame, hindex⟩
  · exact (h.pixels_after_le_block slot).trans
      ((blockAt_mono layout hblock).trans (blockAt_le_pixels other))
  · refine h.pixels_after.trans ?_
    rw [hsame]
    exact pixelAt_mono layout _ hindex

theorem labels_before (hlt : slot < other) :
    (layout.rangeOf (.labels slot)).after ≤ (layout.rangeOf (.labels other)).first := by
  rcases later_slot hlt with hblock | ⟨hsame, hindex⟩
  · exact (h.labels_after_le_block slot).trans
      ((blockAt_mono layout hblock).trans (blockAt_le_labels other))
  · refine h.labels_after.trans ?_
    rw [hsame]
    exact labelAt_mono layout _ hindex

theorem pixels_apart_labels (slot other : Nat) :
    (layout.rangeOf (.pixels slot)).Apart (layout.rangeOf (.labels other)) := by
  rcases Nat.lt_or_ge (other / compiledBlockSlots) (slot / compiledBlockSlots) with hlt | hge
  · exact .inr ((h.labels_after_le_block other).trans
      ((blockAt_mono layout hlt).trans (blockAt_le_pixels slot)))
  · refine .inl ((h.pixels_after_le_label slot).trans ?_)
    rcases Nat.eq_or_lt_of_le hge with hsame | hlt
    · rw [hsame]
      exact label_le_labels other
    · exact (h.labelAt_le_blockAt _ (Nat.zero_le _)).trans
        ((blockAt_mono layout hlt).trans (blockAt_le_labels other))

theorem metadata_before_block (block : Nat) :
    (layout.rangeOf .metadata).after ≤ layout.blockAt block := by
  have hmetadata := le_alignUp_huge (fileHeaderBytes + catalogBytes)
  rw [← h.dataOffset_eq] at hmetadata
  rw [rangeOf, h.catalog_eq]
  exact hmetadata.trans (Nat.le_add_right _ _)

theorem block_before_index (hslot : slot < layout.numSlots) :
    layout.blockAt (slot / compiledBlockSlots + 1) ≤ (layout.rangeOf .index).first :=
  h.blockAt_le_indexOffset (lt_blockCount hslot)

theorem apart {extent other : FileExtent} (hhas : layout.Has extent) (hother : layout.Has other)
    (hne : extent ≠ other) : (layout.rangeOf extent).Apart (layout.rangeOf other) := by
  have hindex : (layout.rangeOf .metadata).after ≤ (layout.rangeOf .index).first :=
    (h.metadata_before_block _).trans (h.blockAt_le_indexOffset (Nat.le_refl _))
  cases extent with
  | metadata =>
      cases other with
      | metadata => exact absurd rfl hne
      | pixels slot => exact .inl ((h.metadata_before_block _).trans (blockAt_le_pixels slot))
      | labels slot => exact .inl ((h.metadata_before_block _).trans (blockAt_le_labels slot))
      | index => exact .inl hindex
  | pixels slot =>
      cases other with
      | metadata => exact .inr ((h.metadata_before_block _).trans (blockAt_le_pixels slot))
      | pixels other =>
          rcases Nat.lt_or_gt_of_ne fun hsame => hne (congrArg FileExtent.pixels hsame) with hlt | hgt
          · exact .inl (h.pixels_before hlt)
          · exact .inr (h.pixels_before hgt)
      | labels other => exact h.pixels_apart_labels slot other
      | index => exact .inl ((h.pixels_after_le_block slot).trans (h.block_before_index hhas))
  | labels slot =>
      cases other with
      | metadata => exact .inr ((h.metadata_before_block _).trans (blockAt_le_labels slot))
      | pixels other => exact (h.pixels_apart_labels other slot).symm
      | labels other =>
          rcases Nat.lt_or_gt_of_ne fun hsame => hne (congrArg FileExtent.labels hsame) with hlt | hgt
          · exact .inl (h.labels_before hlt)
          · exact .inr (h.labels_before hgt)
      | index => exact .inl ((h.labels_after_le_block slot).trans (h.block_before_index hhas))
  | index =>
      cases other with
      | metadata => exact .inr hindex
      | pixels slot => exact .inr ((h.pixels_after_le_block slot).trans (h.block_before_index hother))
      | labels slot => exact .inr ((h.labels_after_le_block slot).trans (h.block_before_index hother))
      | index => exact absurd rfl hne

theorem after_le_totalSize {extent : FileExtent} (hhas : layout.Has extent) :
    (layout.rangeOf extent).after ≤ layout.totalSize := by
  have hindex : (layout.rangeOf .index).first ≤ layout.totalSize := by
    rw [h.totalSize_eq]
    exact Nat.le_add_right _ _
  cases extent with
  | metadata =>
      exact ((h.metadata_before_block _).trans (h.blockAt_le_indexOffset (Nat.le_refl _))).trans
        hindex
  | pixels slot =>
      exact ((h.pixels_after_le_block slot).trans (h.block_before_index hhas)).trans hindex
  | labels slot =>
      exact ((h.labels_after_le_block slot).trans (h.block_before_index hhas)).trans hindex
  | index => exact h.totalSize_eq.ge

theorem blockAt_dvd_huge (block : Nat) : hugePageSize ∣ layout.blockAt block := by
  refine Nat.dvd_add ?_ (Nat.dvd_mul_left_of_dvd ?_ _)
  · rw [h.dataOffset_eq]
    exact Nat.dvd_mul_left _ _
  · rw [h.blockBytes_eq]
    exact Nat.dvd_mul_left _ _

end Computed

end FileLayout

/-- The extents of a layout are inside the file and apart from each other, its offsets are aligned,
and the checked computation of an offset never fails. -/
theorem computeFileLayout_extents {slots stride labelCapacity catalogBytes : Nat}
    {layout : FileLayout}
    (h : computeFileLayout slots stride labelCapacity catalogBytes = .ok layout) :
    (∀ extent, layout.Has extent →
      ∃ range, layout.extent extent = .ok range ∧ range.after ≤ layout.totalSize) ∧
    (∀ extent other range between, layout.Has extent → layout.Has other → extent ≠ other →
      layout.extent extent = .ok range → layout.extent other = .ok between →
        range.Apart between) ∧
    ∀ slot < layout.numSlots, ∃ pixels labels block,
      layout.pixelOffset slot = .ok pixels ∧ layout.labelOffset slot = .ok labels ∧
        layout.blockOffset (FileLayout.blockIndex slot) = .ok block ∧
        pageSize ∣ pixels ∧ pageSize ∣ labels ∧ hugePageSize ∣ block := by
  have hlayout := computeFileLayout_ok h
  refine ⟨fun extent hhas => ?_, fun extent other range between hhas hother hne hrange hbetween => ?_,
    fun slot hslot => ?_⟩
  · exact ⟨_, hlayout.extent_eq hhas, hlayout.after_le_totalSize hhas⟩
  · rw [hlayout.extent_eq hhas] at hrange
    rw [hlayout.extent_eq hother] at hbetween
    obtain rfl := Except.ok.inj hrange
    obtain rfl := Except.ok.inj hbetween
    exact hlayout.apart hhas hother hne
  · exact ⟨_, _, _, hlayout.pixelOffset_eq hslot, hlayout.labelOffset_eq hslot,
      hlayout.blockOffset_eq (Nat.le_of_lt (FileLayout.lt_blockCount hslot)),
      hlayout.pixelAt_dvd _ _, hlayout.labelAt_dvd _ _, hlayout.blockAt_dvd_huge _⟩

/-- One slot more than a block has: a second block as large as the first. -/
theorem computeFileLayout_extents_second_block :
    ∃ layout, computeFileLayout 65 12 8 0 = .ok layout ∧ layout.totalSize = 6293536 ∧
      ∀ slot < layout.numSlots, ∃ pixels labels block,
        layout.pixelOffset slot = .ok pixels ∧ layout.labelOffset slot = .ok labels ∧
          layout.blockOffset (FileLayout.blockIndex slot) = .ok block ∧
          pageSize ∣ pixels ∧ pageSize ∣ labels ∧ hugePageSize ∣ block := by
  have hlayout : computeFileLayout 65 12 8 0 =
      .ok ⟨65, 12, 4096, 8, 4096, 262144, 2097152, 0, 2097152, 2080, 6291456, 6293536⟩ := by decide
  exact ⟨_, hlayout, rfl, (computeFileLayout_extents hlayout).2.2⟩

end Mmltk.Compiled
