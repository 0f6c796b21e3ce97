import Mmltk.Compiled.Layout

namespace Mmltk.Compiled

/-! Where a layout puts the slots of each block, as plain numbers. -/

namespace FileLayout

def blockAt (layout : FileLayout) (block : Nat) : Nat :=
  layout.dataOffset + block * layout.blockBytes

def pixelAt (layout : FileLayout) (block index : Nat) : Nat :=
  layout.blockAt block + index * layout.pixelPitch

def labelAt (layout : FileLayout) (block index : Nat) : Nat :=
  layout.blockAt block + layout.pixelBlockBytes + index * layout.labelPitch

theorem pixelAt_succ (layout : FileLayout) (block index : Nat) :
    layout.pixelAt block (index + 1) = layout.pixelAt block index + layout.pixelPitch := by
  unfold pixelAt
  rw [Nat.add_one_mul, Nat.add_assoc]

theorem labelAt_succ (layout : FileLayout) (block index : Nat) :
    layout.labelAt block (index + 1) = layout.labelAt block index + layout.labelPitch := by
  unfold labelAt
  rw [Nat.add_one_mul, ← Nat.add_assoc]

theorem blockAt_succ (layout : FileLayout) (block : Nat) :
    layout.blockAt (block + 1) = layout.blockAt block + layout.blockBytes := by
  unfold blockAt
  rw [Nat.add_one_mul, Nat.add_assoc]

theorem pixelAt_zero (layout : FileLayout) (block : Nat) :
    layout.pixelAt block 0 = layout.blockAt block := by
  rw [pixelAt, Nat.zero_mul, Nat.add_zero]

theorem pixelAt_add (layout : FileLayout) (block index count : Nat) :
    layout.pixelAt block (index + count) =
      layout.pixelAt block index + count * layout.pixelPitch := by
  unfold pixelAt
  rw [Nat.add_mul, Nat.add_assoc]

theorem pixelAt_mono (layout : FileLayout) (block : Nat) {left right : Nat}
    (h : left ≤ right) : layout.pixelAt block left ≤ layout.pixelAt block right :=
  Nat.add_le_add_left (Nat.mul_le_mul_right _ h) _

theorem labelAt_mono (layout : FileLayout) (block : Nat) {left right : Nat}
    (h : left ≤ right) : layout.labelAt block left ≤ layout.labelAt block right :=
  Nat.add_le_add_left (Nat.mul_le_mul_right _ h) _

theorem blockAt_mono (layout : FileLayout) {left right : Nat} (h : left ≤ right) :
    layout.blockAt left ≤ layout.blockAt right :=
  Nat.add_le_add_left (Nat.mul_le_mul_right _ h) _

/-- The slots of `entries` below `count` fill this many blocks. -/
theorem lt_blockCount {layout : FileLayout} {slot : Nat} (h : slot < layout.numSlots) :
    slot / compiledBlockSlots < layout.blockCount := by
  unfold blockCount compiledBlockSlots
  omega

namespace Computed

variable {layout : FileLayout} {slots stride labelCapacity catalogBytes : Nat}
  (h : layout.Computed slots stride labelCapacity catalogBytes)
include h

theorem stride_le_pitch : stride ≤ layout.pixelPitch := by
  rw [h.pixelPitch_eq]
  exact le_alignUp_page stride

theorem capacity_le_pitch : labelCapacity ≤ layout.labelPitch := by
  rw [h.labelPitch_eq]
  exact le_alignUp_page labelCapacity

theorem pixelAt_le_labelAt (block : Nat) {index : Nat} (hindex : index ≤ compiledBlockSlots) :
    layout.pixelAt block index ≤ layout.labelAt block 0 := by
  rw [pixelAt, labelAt, Nat.zero_mul, Nat.add_zero, h.pixelBlock_eq]
  exact Nat.add_le_add_left (Nat.mul_le_mul_right _ hindex) _

theorem labelAt_le_blockAt (block : Nat) {index : Nat} (hindex : index ≤ compiledBlockSlots) :
    layout.labelAt block index ≤ layout.blockAt (block + 1) := by
  have hused := le_alignUp_huge (compiledBlockSlots * (layout.pixelPitch + layout.labelPitch))
  rw [← h.blockBytes_eq, Nat.mul_add, ← h.pixelBlock_eq] at hused
  have hwithin := Nat.mul_le_mul_right layout.labelPitch hindex
  rw [blockAt_succ, labelAt]
  omega

theorem blockAt_le_indexOffset {block : Nat} (hblock : block ≤ layout.blockCount) :
    layout.blockAt block ≤ layout.indexOffset := by
  rw [h.indexOffset_eq]
  exact blockAt_mono layout hblock

theorem dataOffset_dvd : pageSize ∣ layout.dataOffset := by
  rw [h.dataOffset_eq]
  exact page_dvd_alignUp_huge _

theorem blockAt_dvd (block : Nat) : pageSize ∣ layout.blockAt block := by
  refine Nat.dvd_add h.dataOffset_dvd (Nat.dvd_mul_left_of_dvd ?_ _)
  rw [h.blockBytes_eq]
  exact page_dvd_alignUp_huge _

theorem pixelPitch_dvd : pageSize ∣ layout.pixelPitch := by
  rw [h.pixelPitch_eq]
  exact alignUp_page_dvd stride

theorem pixelAt_dvd (block index : Nat) : pageSize ∣ layout.pixelAt block index :=
  Nat.dvd_add (h.blockAt_dvd block) (Nat.dvd_mul_left_of_dvd h.pixelPitch_dvd _)

theorem labelAt_dvd (block index : Nat) : pageSize ∣ layout.labelAt block index := by
  refine Nat.dvd_add (Nat.dvd_add (h.blockAt_dvd block) ?_) (Nat.dvd_mul_left_of_dvd ?_ _)
  · rw [h.pixelBlock_eq]
    exact Nat.dvd_mul_left_of_dvd h.pixelPitch_dvd _
  · rw [h.labelPitch_eq]
    exact alignUp_page_dvd labelCapacity

theorem indexOffset_lt : layout.indexOffset < 2 ^ 63 := by
  have := h.totalSize_eq
  have := h.totalSize_lt
  omega

theorem blockOffset_eq {block : Nat} (hblock : block ≤ layout.blockCount) :
    layout.blockOffset block = .ok (layout.blockAt block) := by
  have hlt := Nat.lt_of_le_of_lt (h.blockAt_le_indexOffset hblock) h.indexOffset_lt
  unfold blockAt at hlt ⊢
  rw [blockOffset, checkedMultiply_of_lt (by omega)]
  exact checkedAdd_of_lt (by omega)

/-- Every slot of a layout has its pixels and its labels inside the data blocks. -/
theorem labelAt_succ_le_indexOffset {slot : Nat} (hslot : slot < layout.numSlots) :
    layout.labelAt (slot / compiledBlockSlots) (slot % compiledBlockSlots + 1) ≤
      layout.indexOffset :=
  Nat.le_trans (h.labelAt_le_blockAt _ (Nat.mod_lt _ (by decide)))
    (h.blockAt_le_indexOffset (lt_blockCount hslot))

theorem pixels_le_indexOffset {slot : Nat} (hslot : slot < layout.numSlots) :
    layout.pixelAt (slot / compiledBlockSlots) (slot % compiledBlockSlots) + stride ≤
      layout.indexOffset := by
  have hnext := h.pixelAt_le_labelAt (slot / compiledBlockSlots)
    (Nat.succ_le_of_lt (Nat.mod_lt slot (by decide)))
  have hlabel := labelAt_mono layout (slot / compiledBlockSlots)
    (Nat.zero_le (slot % compiledBlockSlots + 1))
  have hpitch := h.stride_le_pitch
  rw [Nat.succ_eq_add_one, pixelAt_succ] at hnext
  exact Nat.le_trans (Nat.add_le_add_left hpitch _)
    (Nat.le_trans hnext (Nat.le_trans hlabel (h.labelAt_succ_le_indexOffset hslot)))

theorem labels_le_indexOffset {slot bytes : Nat} (hslot : slot < layout.numSlots)
    (hbytes : bytes ≤ labelCapacity) :
    layout.labelAt (slot / compiledBlockSlots) (slot % compiledBlockSlots) + bytes ≤
      layout.indexOffset := by
  have hend := h.labelAt_succ_le_indexOffset hslot
  rw [labelAt_succ] at hend
  exact Nat.le_trans (Nat.add_le_add_left (Nat.le_trans hbytes h.capacity_le_pitch) _) hend

theorem pixelOffset_eq {slot : Nat} (hslot : slot < layout.numSlots) :
    layout.pixelOffset slot =
      .ok (layout.pixelAt (slot / compiledBlockSlots) (slot % compiledBlockSlots)) := by
  have hlabel := h.labelAt_succ_le_indexOffset hslot
  have hpixel := h.pixelAt_le_labelAt (slot / compiledBlockSlots)
    (Nat.le_of_lt (Nat.mod_lt slot (by decide)))
  have hmono := labelAt_mono layout (slot / compiledBlockSlots)
    (Nat.zero_le (slot % compiledBlockSlots + 1))
  have hlt := h.indexOffset_lt
  unfold pixelAt at hpixel ⊢
  rw [pixelOffset, if_neg (Nat.not_le.mpr hslot),
    h.blockOffset_eq (Nat.le_of_lt (lt_blockCount hslot))]
  show (checkedMultiply _ _ _ >>= fun within => checkedAdd _ within _) = _
  rw [checkedMultiply_of_lt (by omega)]
  exact checkedAdd_of_lt (by omega)

theorem labelOffset_eq {slot : Nat} (hslot : slot < layout.numSlots) :
    layout.labelOffset slot =
      .ok (layout.labelAt (slot / compiledBlockSlots) (slot % compiledBlockSlots)) := by
  have hlabel := h.labelAt_succ_le_indexOffset hslot
  rw [labelAt_succ] at hlabel
  have hlt := h.indexOffset_lt
  unfold labelAt at hlabel ⊢
  rw [labelOffset, if_neg (Nat.not_le.mpr hslot),
    h.blockOffset_eq (Nat.le_of_lt (lt_blockCount hslot))]
  show (checkedAdd _ _ _ >>= fun base =>
    checkedMultiply _ _ _ >>= fun within => checkedAdd base within _) = _
  rw [checkedAdd_of_lt (by omega)]
  show (checkedMultiply _ _ _ >>= fun within => checkedAdd _ within _) = _
  rw [checkedMultiply_of_lt (by omega)]
  exact checkedAdd_of_lt (by omega)

end Computed

/-! A layout that differs from another only by a smaller label capacity. -/

structure Tightens (compact staging : FileLayout) : Prop where
  numSlots_eq : compact.numSlots = staging.numSlots
  dataOffset_eq : compact.dataOffset = staging.dataOffset
  pixelPitch_eq : compact.pixelPitch = staging.pixelPitch
  pixelBlock_eq : compact.pixelBlockBytes = staging.pixelBlockBytes
  labelPitch_le : compact.labelPitch ≤ staging.labelPitch
  blockBytes_le : compact.blockBytes ≤ staging.blockBytes

theorem Computed.tightens {compact staging : FileLayout}
    {slots stride fewer labelCapacity catalogBytes : Nat}
    (hcompact : compact.Computed slots stride fewer catalogBytes)
    (hstaging : staging.Computed slots stride labelCapacity catalogBytes)
    (hle : fewer ≤ labelCapacity) : compact.Tightens staging := by
  have hpitch : compact.pixelPitch = staging.pixelPitch := by
    rw [hcompact.pixelPitch_eq, hstaging.pixelPitch_eq]
  have hlabel : compact.labelPitch ≤ staging.labelPitch := by
    rw [hcompact.labelPitch_eq, hstaging.labelPitch_eq]
    exact alignUp_mono _ hle
  refine ⟨?_, ?_, hpitch, ?_, hlabel, ?_⟩
  · rw [hcompact.numSlots_eq, hstaging.numSlots_eq]
  · rw [hcompact.dataOffset_eq, hstaging.dataOffset_eq]
  · rw [hcompact.pixelBlock_eq, hstaging.pixelBlock_eq, hpitch]
  · rw [hcompact.blockBytes_eq, hstaging.blockBytes_eq, hpitch]
    exact alignUp_mono _ (Nat.mul_le_mul_left _ (Nat.add_le_add_left hlabel _))

namespace Tightens

variable {compact staging : FileLayout} (h : compact.Tightens staging)
include h

theorem blockAt_le (block : Nat) : compact.blockAt block ≤ staging.blockAt block := by
  unfold blockAt
  rw [h.dataOffset_eq]
  exact Nat.add_le_add_left (Nat.mul_le_mul_left _ h.blockBytes_le) _

theorem pixelAt_le (block index : Nat) :
    compact.pixelAt block index ≤ staging.pixelAt block index := by
  unfold pixelAt
  rw [h.pixelPitch_eq]
  exact Nat.add_le_add_right (h.blockAt_le block) _

theorem labelAt_le (block index : Nat) :
    compact.labelAt block index ≤ staging.labelAt block index := by
  unfold labelAt
  rw [h.pixelBlock_eq]
  exact Nat.add_le_add (Nat.add_le_add_right (h.blockAt_le block) _)
    (Nat.mul_le_mul_left _ h.labelPitch_le)

theorem blockCount_eq : compact.blockCount = staging.blockCount := by
  unfold blockCount
  rw [h.numSlots_eq]

theorem totalSize_le {slots stride fewer labelCapacity catalogBytes : Nat}
    (hcompact : compact.Computed slots stride fewer catalogBytes)
    (hstaging : staging.Computed slots stride labelCapacity catalogBytes) :
    compact.totalSize ≤ staging.totalSize := by
  have hblocks := h.blockAt_le staging.blockCount
  rw [hcompact.totalSize_eq, hstaging.totalSize_eq, hcompact.indexSize_eq,
    hstaging.indexSize_eq, hcompact.indexOffset_eq, hstaging.indexOffset_eq, h.blockCount_eq]
  exact Nat.add_le_add_right hblocks _

/-- With equal label pitches the block sizes agree, and every slot is where it was. -/
theorem pixelAt_eq (hblock : compact.blockBytes = staging.blockBytes) (block index : Nat) :
    compact.pixelAt block index = staging.pixelAt block index := by
  unfold pixelAt blockAt
  rw [h.pixelPitch_eq, h.dataOffset_eq, hblock]

theorem labelAt_eq (hblock : compact.blockBytes = staging.blockBytes)
    (hlabel : compact.labelPitch = staging.labelPitch) (block index : Nat) :
    compact.labelAt block index = staging.labelAt block index := by
  unfold labelAt blockAt
  rw [h.pixelBlock_eq, h.dataOffset_eq, hblock, hlabel]

end Tightens

end FileLayout

end Mmltk.Compiled
