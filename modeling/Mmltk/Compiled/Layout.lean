import Mathlib.Tactic.Ring
import Mmltk.Foundation.Outcome

namespace Mmltk.Compiled

open Mmltk.Foundation

/-! The persisted layout of a compiled dataset: blocks of page-aligned slots. -/

def pageSize : Nat := 4096

def hugePageSize : Nat := 2 * 1024 * 1024

def compiledBlockSlots : Nat := 64

def compiledLabelLimit : Nat := 500000

def compiledCatalogLimit : Nat := 32 * 1024 * 1024

def compiledMetadataCapacity : Nat := 1000000000

/-! `sizeof` of the packed records. -/

def fileHeaderBytes : Nat := 8320

def imageEntryBytes : Nat := 32

def packedInstanceBytes : Nat := 60

def rlePairBytes : Nat := 8

def packedJointHeaderBytes : Nat := 8

def packedJointSpanBytes : Nat := 8

def packedKeypointBytes : Nat := 12

/-- The exceptions of the compiled-file code, by type and message. -/
inductive CompiledError where
  | overflow (context : String)
  | invalidArgument (message : String)
  | outOfRange (message : String)
  | runtime (message : String)
  | logic (message : String)
  | length (message : String)
  | insufficientStorage
  deriving DecidableEq, Repr

/-- `std::logic_error` and nothing derived from it. -/
def CompiledError.isLogic : CompiledError → Bool
  | .logic _ => true
  | _ => false

/-- `checked_add<std::size_t>` -/
def checkedAdd (left right : Nat) (context : String) : Except CompiledError Nat :=
  if 2 ^ 64 - 1 - left < right then .error (.overflow context) else .ok (left + right)

/-- `checked_multiply<std::size_t>` -/
def checkedMultiply (left right : Nat) (context : String) : Except CompiledError Nat :=
  if left ≠ 0 ∧ (2 ^ 64 - 1) / left < right then .error (.overflow context)
  else .ok (left * right)

/-- `checked_cast` to an integer type whose largest value is `limit`. -/
def checkedCast (limit value : Nat) (context : String) : Except CompiledError Nat :=
  if limit < value then .error (.overflow context) else .ok value

/-- The mask `& ~(alignment - 1)` clears the bits below a power of two. -/
def compiledAlignUp (value alignment : Nat) : Except CompiledError Nat :=
  if alignment = 0 ∨ alignment &&& (alignment - 1) ≠ 0 then
    .error (.invalidArgument "compiled alignment must be a power of two")
  else do
    let padded ← checkedAdd value (alignment - 1) "compiled alignment overflow"
    .ok (padded / alignment * alignment)

structure AnnotationLayout where
  runOffset : Nat
  jointSpanOffset : Nat
  jointOffset : Nat
  usedBytes : Nat
  deriving DecidableEq, Repr

def annotationLayout (labels runs capacity joints : Nat) :
    Except CompiledError AnnotationLayout :=
  if compiledLabelLimit < capacity ∨ capacity % rlePairBytes ≠ 0 then
    .error (.invalidArgument "invalid compiled label capacity")
  else do
    let labelBytes ← checkedMultiply labels packedInstanceBytes "compiled labels overflow"
    let runOffset ← compiledAlignUp labelBytes rlePairBytes
    let runBytes ← checkedMultiply runs rlePairBytes "compiled runs overflow"
    let bytes ← checkedAdd runOffset runBytes "compiled label payload overflow"
    let layout : AnnotationLayout ←
      if joints = 0 then .ok ⟨runOffset, 0, 0, bytes⟩
      else do
        let jointSpanOffset ←
          checkedAdd bytes packedJointHeaderBytes "compiled joint header overflow"
        let spanBytes ←
          checkedMultiply labels packedJointSpanBytes "compiled joint spans overflow"
        let jointOffset ←
          checkedAdd jointSpanOffset spanBytes "compiled joint offset overflow"
        let jointBytes ←
          checkedMultiply joints packedKeypointBytes "compiled joints overflow"
        let jointEnd ← checkedAdd jointOffset jointBytes "compiled joint extent overflow"
        let usedBytes ← compiledAlignUp jointEnd rlePairBytes
        .ok ⟨runOffset, jointSpanOffset, jointOffset, usedBytes⟩
    if capacity < layout.usedBytes then
      .error (.runtime ("compiled label capacity exceeded: required " ++
        toString layout.usedBytes ++ " bytes, capacity " ++ toString capacity))
    else .ok layout

structure FileLayout where
  numSlots : Nat
  imageStride : Nat
  pixelPitch : Nat
  labelCapacity : Nat
  labelPitch : Nat
  pixelBlockBytes : Nat
  blockBytes : Nat
  catalogBytes : Nat
  dataOffset : Nat
  indexSize : Nat
  indexOffset : Nat
  totalSize : Nat
  deriving DecidableEq, Repr

namespace FileLayout

def blockCount (layout : FileLayout) : Nat :=
  (layout.numSlots + compiledBlockSlots - 1) / compiledBlockSlots

def blockIndex (slot : Nat) : Nat := slot / compiledBlockSlots

def blockOffset (layout : FileLayout) (block : Nat) : Except CompiledError Nat := do
  let bytes ← checkedMultiply block layout.blockBytes "compiled block offset overflow"
  checkedAdd layout.dataOffset bytes "compiled data offset overflow"

def pixelOffset (layout : FileLayout) (slot : Nat) : Except CompiledError Nat :=
  if layout.numSlots ≤ slot then .error (.outOfRange "compiled pixel slot")
  else do
    let block ← layout.blockOffset (slot / compiledBlockSlots)
    let within ← checkedMultiply (slot % compiledBlockSlots) layout.pixelPitch
      "compiled pixel offset overflow"
    checkedAdd block within "compiled pixel extent overflow"

def labelOffset (layout : FileLayout) (slot : Nat) : Except CompiledError Nat :=
  if layout.numSlots ≤ slot then .error (.outOfRange "compiled label slot")
  else do
    let block ← layout.blockOffset (slot / compiledBlockSlots)
    let base ← checkedAdd block layout.pixelBlockBytes "compiled label base overflow"
    let within ← checkedMultiply (slot % compiledBlockSlots) layout.labelPitch
      "compiled label offset overflow"
    checkedAdd base within "compiled label extent overflow"

end FileLayout

def computeFileLayout (slots stride labelCapacity catalogBytes : Nat) :
    Except CompiledError FileLayout :=
  if stride = 0 ∨ stride % 4 ≠ 0 then
    .error (.invalidArgument "invalid compiled pixel stride")
  else if compiledLabelLimit < labelCapacity ∨ labelCapacity % rlePairBytes ≠ 0 then
    .error (.invalidArgument "invalid compiled label capacity")
  else do
    let pixelPitch ← compiledAlignUp stride pageSize
    let labelPitch ← compiledAlignUp labelCapacity pageSize
    let pixelBlockBytes ←
      checkedMultiply compiledBlockSlots pixelPitch "compiled pixel block overflow"
    let slotBytes ← checkedAdd pixelPitch labelPitch "compiled slot extent overflow"
    let usedBlockBytes ←
      checkedMultiply compiledBlockSlots slotBytes "compiled block overflow"
    let blockBytes ← compiledAlignUp usedBlockBytes hugePageSize
    if compiledCatalogLimit < catalogBytes then
      .error (.runtime "compiled catalog exceeds byte limit")
    else do
      let metadata ← checkedAdd fileHeaderBytes catalogBytes "compiled metadata overflow"
      let dataOffset ← compiledAlignUp metadata hugePageSize
      let indexSize ← checkedMultiply slots imageEntryBytes "compiled index overflow"
      if compiledMetadataCapacity < indexSize then
        .error (.runtime "compiled resident metadata exceeds 1000000000 bytes")
      else do
        let layout : FileLayout :=
          { numSlots := slots, imageStride := stride, pixelPitch, labelCapacity, labelPitch,
            pixelBlockBytes, blockBytes, catalogBytes, dataOffset, indexSize,
            indexOffset := 0, totalSize := 0 }
        let indexOffset ← layout.blockOffset layout.blockCount
        let totalSize ← checkedAdd indexOffset indexSize "compiled file extent overflow"
        let _ ← checkedCast (2 ^ 63 - 1) totalSize
          "compiled file exceeds native offset representation"
        .ok { layout with indexOffset, totalSize }

/-! What the checked arithmetic returns. -/

/-- The least multiple of `alignment` that is at least `value`. -/
def alignUp (value alignment : Nat) : Nat := (value + (alignment - 1)) / alignment * alignment

theorem checkedAdd_ok {left right value : Nat} {context : String}
    (h : checkedAdd left right context = .ok value) : value = left + right := by
  unfold checkedAdd at h
  split at h
  · contradiction
  · exact (Except.ok.inj h).symm

theorem checkedAdd_of_lt {left right : Nat} {context : String} (h : left + right < 2 ^ 64) :
    checkedAdd left right context = .ok (left + right) := by
  rw [checkedAdd, if_neg (by omega)]

theorem checkedMultiply_ok {left right value : Nat} {context : String}
    (h : checkedMultiply left right context = .ok value) : value = left * right := by
  unfold checkedMultiply at h
  split at h
  · contradiction
  · exact (Except.ok.inj h).symm

theorem checkedMultiply_of_lt {left right : Nat} {context : String}
    (h : left * right < 2 ^ 64) : checkedMultiply left right context = .ok (left * right) := by
  rw [checkedMultiply, if_neg]
  rintro ⟨hleft, hright⟩
  have := (Nat.div_lt_iff_lt_mul (Nat.pos_of_ne_zero hleft)).mp hright
  rw [Nat.mul_comm] at h
  omega

theorem compiledAlignUp_ok {value alignment result : Nat}
    (h : compiledAlignUp value alignment = .ok result) : result = alignUp value alignment := by
  unfold compiledAlignUp at h
  split at h
  · contradiction
  · obtain ⟨padded, hpadded, hresult⟩ := bind_eq_ok.mp h
    rw [checkedAdd_ok hpadded] at hresult
    exact (Except.ok.inj hresult).symm

theorem le_alignUp_page (value : Nat) : value ≤ alignUp value pageSize := by
  unfold alignUp pageSize
  omega

theorem alignUp_page_dvd (value : Nat) : pageSize ∣ alignUp value pageSize :=
  Nat.dvd_mul_left _ _

theorem alignUp_page_le {value bound : Nat} (h : value ≤ bound) (hbound : pageSize ∣ bound) :
    alignUp value pageSize ≤ bound := by
  obtain ⟨pages, rfl⟩ := hbound
  unfold alignUp
  unfold pageSize at h ⊢
  omega

theorem alignUp_page_of_dvd {value : Nat} (h : pageSize ∣ value) :
    alignUp value pageSize = value :=
  Nat.le_antisymm (alignUp_page_le (Nat.le_refl _) h) (le_alignUp_page value)

theorem alignUp_mono {left right : Nat} (alignment : Nat) (h : left ≤ right) :
    alignUp left alignment ≤ alignUp right alignment :=
  Nat.mul_le_mul_right _ (Nat.div_le_div_right (Nat.add_le_add_right h _))

theorem page_dvd_alignUp_huge (value : Nat) : pageSize ∣ alignUp value hugePageSize :=
  Nat.dvd_mul_left_of_dvd (by decide) _

theorem le_alignUp_huge (value : Nat) : value ≤ alignUp value hugePageSize := by
  unfold alignUp hugePageSize
  omega

/-- A layout that `computeFileLayout` returned. -/
structure FileLayout.Computed (layout : FileLayout)
    (slots stride labelCapacity catalogBytes : Nat) : Prop where
  stride_pos : 0 < stride
  capacity_le : labelCapacity ≤ compiledLabelLimit
  numSlots_eq : layout.numSlots = slots
  stride_eq : layout.imageStride = stride
  pixelPitch_eq : layout.pixelPitch = alignUp stride pageSize
  capacity_eq : layout.labelCapacity = labelCapacity
  labelPitch_eq : layout.labelPitch = alignUp labelCapacity pageSize
  pixelBlock_eq : layout.pixelBlockBytes = compiledBlockSlots * layout.pixelPitch
  blockBytes_eq : layout.blockBytes =
    alignUp (compiledBlockSlots * (layout.pixelPitch + layout.labelPitch)) hugePageSize
  catalog_eq : layout.catalogBytes = catalogBytes
  dataOffset_eq : layout.dataOffset = alignUp (fileHeaderBytes + catalogBytes) hugePageSize
  indexSize_eq : layout.indexSize = slots * imageEntryBytes
  indexSize_le : layout.indexSize ≤ compiledMetadataCapacity
  indexOffset_eq : layout.indexOffset = layout.dataOffset + layout.blockCount * layout.blockBytes
  totalSize_eq : layout.totalSize = layout.indexOffset + layout.indexSize
  totalSize_lt : layout.totalSize < 2 ^ 63

theorem computeFileLayout_ok {slots stride labelCapacity catalogBytes : Nat}
    {layout : FileLayout}
    (h : computeFileLayout slots stride labelCapacity catalogBytes = .ok layout) :
    layout.Computed slots stride labelCapacity catalogBytes := by
  unfold computeFileLayout at h
  split at h
  · contradiction
  · next hstride =>
    split at h
    · contradiction
    · next hcapacity =>
      obtain ⟨pixelPitch, hpixelPitch, h⟩ := bind_eq_ok.mp h
      obtain ⟨labelPitch, hlabelPitch, h⟩ := bind_eq_ok.mp h
      obtain ⟨pixelBlock, hpixelBlock, h⟩ := bind_eq_ok.mp h
      obtain ⟨slotBytes, hslotBytes, h⟩ := bind_eq_ok.mp h
      obtain ⟨usedBlock, husedBlock, h⟩ := bind_eq_ok.mp h
      obtain ⟨blockBytes, hblockBytes, h⟩ := bind_eq_ok.mp h
      split at h
      · contradiction
      · obtain ⟨metadata, hmetadata, h⟩ := bind_eq_ok.mp h
        obtain ⟨dataOffset, hdataOffset, h⟩ := bind_eq_ok.mp h
        obtain ⟨indexSize, hindexSize, h⟩ := bind_eq_ok.mp h
        split at h
        · contradiction
        · next hindex =>
          obtain ⟨indexOffset, hindexOffset, h⟩ := bind_eq_ok.mp h
          obtain ⟨totalSize, htotalSize, h⟩ := bind_eq_ok.mp h
          obtain ⟨cast, hcast, h⟩ := bind_eq_ok.mp h
          cases h
          obtain ⟨bytes, hbytes, hindexOffset⟩ := bind_eq_ok.mp hindexOffset
          have hcast : totalSize ≤ 2 ^ 63 - 1 := by
            unfold checkedCast at hcast
            split at hcast
            · contradiction
            · omega
          rw [compiledAlignUp_ok hpixelPitch, compiledAlignUp_ok hlabelPitch] at *
          rw [checkedMultiply_ok husedBlock, checkedAdd_ok hslotBytes] at hblockBytes
          rw [checkedAdd_ok hmetadata] at hdataOffset
          rw [checkedMultiply_ok hbytes] at hindexOffset
          exact {
            stride_pos := by omega
            capacity_le := by omega
            numSlots_eq := rfl
            stride_eq := rfl
            pixelPitch_eq := rfl
            capacity_eq := rfl
            labelPitch_eq := rfl
            pixelBlock_eq := checkedMultiply_ok hpixelBlock
            blockBytes_eq := compiledAlignUp_ok hblockBytes
            catalog_eq := rfl
            dataOffset_eq := compiledAlignUp_ok hdataOffset
            indexSize_eq := checkedMultiply_ok hindexSize
            indexSize_le := Nat.not_lt.mp hindex
            indexOffset_eq := checkedAdd_ok hindexOffset
            totalSize_eq := checkedAdd_ok htotalSize
            totalSize_lt := Nat.lt_of_le_of_lt hcast (by decide) }

end Mmltk.Compiled
