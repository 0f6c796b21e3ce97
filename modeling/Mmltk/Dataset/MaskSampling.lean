import Mathlib.Tactic.Ring
import Mmltk.Dataset.MaskProjection
import Mmltk.Dataset.MaskSlab

namespace Mmltk.Dataset

/-! The nearest source pixel of a target pixel, and the pixels that a source run has. -/

/-- The source coordinate under the center of a target pixel. -/
def nearestSource (index sourceExtent targetExtent : Nat) : Nat :=
  (2 * index + 1) * sourceExtent / (2 * targetExtent)

variable {bound other index sourceExtent targetExtent : Nat}

theorem nearestSource_lt (hsource : 0 < sourceExtent) (hindex : index < targetExtent) :
    nearestSource index sourceExtent targetExtent < sourceExtent := by
  refine Nat.div_lt_of_lt_mul ?_
  exact Nat.mul_lt_mul_of_pos_right (by omega) hsource

theorem inverseMaskCoordinate_le : inverseMaskCoordinate bound sourceExtent targetExtent ≤ targetExtent := by
  dsimp only [inverseMaskCoordinate]
  split
  · exact Nat.zero_le _
  · exact Nat.min_le_left ..

/-- The inverse coordinate is the first whose nearest source coordinate reaches the bound. -/
theorem inverseMaskCoordinate_le_iff (hsource : 0 < sourceExtent) (hindex : index < targetExtent) :
    inverseMaskCoordinate bound sourceExtent targetExtent ≤ index ↔
      bound ≤ nearestSource index sourceExtent targetExtent := by
  have hreach : bound ≤ nearestSource index sourceExtent targetExtent ↔
      2 * targetExtent * bound ≤ 2 * sourceExtent * index + sourceExtent := by
    rw [nearestSource, Nat.le_div_iff_mul_le (by omega)]
    have hleft : bound * (2 * targetExtent) = 2 * targetExtent * bound := Nat.mul_comm ..
    have hright : (2 * index + 1) * sourceExtent = 2 * sourceExtent * index + sourceExtent := by ring
    rw [hleft, hright]
  rw [hreach]
  dsimp only [inverseMaskCoordinate]
  split
  next hsmall => exact iff_of_true (Nat.zero_le _) (by omega)
  next hlarge =>
    rw [min_le_iff, or_iff_right (by omega), ← Nat.lt_succ_iff, Nat.div_lt_iff_lt_mul (by omega)]
    have hstep : (index + 1) * (2 * sourceExtent) = 2 * sourceExtent * index + 2 * sourceExtent := by
      ring
    rw [hstep]
    omega

theorem inverseMaskCoordinate_mono (hsource : 0 < sourceExtent) (hle : bound ≤ other) :
    inverseMaskCoordinate bound sourceExtent targetExtent ≤
      inverseMaskCoordinate other sourceExtent targetExtent := by
  obtain hless | hfull := Nat.lt_or_ge
    (inverseMaskCoordinate other sourceExtent targetExtent) targetExtent
  · rw [inverseMaskCoordinate_le_iff hsource hless]
    exact hle.trans ((inverseMaskCoordinate_le_iff hsource hless).mp (le_refl _))
  · exact inverseMaskCoordinate_le.trans hfull

theorem inverseMaskCoordinate_full (hsource : 0 < sourceExtent) (hbound : sourceExtent ≤ bound) :
    inverseMaskCoordinate bound sourceExtent targetExtent = targetExtent := by
  refine le_antisymm inverseMaskCoordinate_le ?_
  by_contra hless
  have hnearest : bound ≤ nearestSource _ sourceExtent targetExtent :=
    (inverseMaskCoordinate_le_iff hsource (not_le.mp hless)).mp (le_refl _)
  have hlt := nearestSource_lt hsource (not_le.mp hless)
  omega

theorem inverseMaskCoordinate_zero : inverseMaskCoordinate 0 sourceExtent targetExtent = 0 := by
  simp [inverseMaskCoordinate]

/-- The target pixels whose nearest source pixel is in the foreground. -/
def Sampled (source : MaskDimensions) (geometry : ImageResizeGeometry) (targetWidth : Nat)
    (foreground : Nat → Prop) (pixel : Nat) : Prop :=
  ∃ column row, column < geometry.resizedWidth ∧ row < geometry.resizedHeight ∧
    pixel = (row + geometry.offsetY) * targetWidth + (column + geometry.offsetX) ∧
    foreground (nearestSource row source.height geometry.resizedHeight * source.width +
      nearestSource column source.width geometry.resizedWidth)

variable {source : MaskDimensions} {geometry : ImageResizeGeometry} {targetWidth pixel : Nat}
  {foreground others : Nat → Prop}

theorem sampled_or :
    Sampled source geometry targetWidth (fun index => foreground index ∨ others index) pixel ↔
      Sampled source geometry targetWidth foreground pixel ∨
        Sampled source geometry targetWidth others pixel := by
  simp only [Sampled, and_or_left, exists_or]

theorem sampled_congr (h : ∀ index, foreground index ↔ others index) :
    Sampled source geometry targetWidth foreground pixel ↔
      Sampled source geometry targetWidth others pixel := by
  obtain rfl : foreground = others := funext fun index => propext (h index)
  rfl

/-- The target coordinates of source coordinates in a range. -/
theorem inverse_range (hsource : 0 < sourceExtent) {first stop : Nat} (hindex : index < targetExtent) :
    inverseMaskCoordinate first sourceExtent targetExtent ≤ index ∧
        index < inverseMaskCoordinate stop sourceExtent targetExtent ↔
      first ≤ nearestSource index sourceExtent targetExtent ∧
        nearestSource index sourceExtent targetExtent < stop := by
  rw [inverseMaskCoordinate_le_iff hsource hindex, ← not_le,
    inverseMaskCoordinate_le_iff hsource hindex, not_le]

/-- Source rows with one range of columns are target rows with one interval. -/
theorem slabPixels_sampled (hwidth : 0 < source.width) (hheight : 0 < source.height)
    (firstRow stopRow first stop : Nat) :
    MaskRunEmitter.SlabPixels targetWidth
        (inverseMaskCoordinate firstRow source.height geometry.resizedHeight + geometry.offsetY)
        (inverseMaskCoordinate stopRow source.height geometry.resizedHeight + geometry.offsetY)
        [(inverseMaskCoordinate first source.width geometry.resizedWidth + geometry.offsetX,
          inverseMaskCoordinate stop source.width geometry.resizedWidth + geometry.offsetX)] pixel ↔
      Sampled source geometry targetWidth (fun index =>
        (firstRow ≤ index / source.width ∧ index / source.width < stopRow) ∧
          first ≤ index % source.width ∧ index % source.width < stop) pixel := by
  have hparts : ∀ column row, column < geometry.resizedWidth →
      (nearestSource row source.height geometry.resizedHeight * source.width +
        nearestSource column source.width geometry.resizedWidth) / source.width =
          nearestSource row source.height geometry.resizedHeight ∧
      (nearestSource row source.height geometry.resizedHeight * source.width +
        nearestSource column source.width geometry.resizedWidth) % source.width =
          nearestSource column source.width geometry.resizedWidth := fun column row hcolumn => by
    have hlt := nearestSource_lt hwidth hcolumn
    rw [Nat.add_comm, Nat.add_mul_div_right _ _ hwidth, Nat.div_eq_of_lt hlt, Nat.zero_add,
      Nat.add_mul_mod_self_right, Nat.mod_eq_of_lt hlt]
    exact ⟨rfl, rfl⟩
  constructor
  · rintro ⟨row, hfirst, hstop, hpixel⟩
    obtain ⟨hge, hlt⟩ := (MaskRunEmitter.rowPixels_cons.mp hpixel).resolve_right
      MaskRunEmitter.not_rowPixels_nil
    dsimp only at hge hlt
    have hrowLe : inverseMaskCoordinate stopRow source.height geometry.resizedHeight ≤
        geometry.resizedHeight := inverseMaskCoordinate_le
    have hcolumnLe : inverseMaskCoordinate stop source.width geometry.resizedWidth ≤
        geometry.resizedWidth := inverseMaskCoordinate_le
    have hrow : row - geometry.offsetY < geometry.resizedHeight := by omega
    have hcolumn : pixel - row * targetWidth - geometry.offsetX < geometry.resizedWidth := by omega
    refine ⟨_, _, hcolumn, hrow, ?_, ?_⟩
    · have hback : row - geometry.offsetY + geometry.offsetY = row := by omega
      rw [hback]
      omega
    · obtain ⟨hdiv, hmod⟩ := hparts _ (row - geometry.offsetY) hcolumn
      rw [hdiv, hmod, ← inverse_range hheight hrow, ← inverse_range hwidth hcolumn]
      omega
  · rintro ⟨column, row, hcolumn, hrow, rfl, hrows, hcolumns⟩
    obtain ⟨hdiv, hmod⟩ := hparts column row hcolumn
    rw [hdiv, ← inverse_range hheight hrow] at hrows
    rw [hmod, ← inverse_range hwidth hcolumn] at hcolumns
    refine ⟨row + geometry.offsetY, by omega, by omega, MaskRunEmitter.rowPixels_cons.mpr (.inl ?_)⟩
    dsimp only
    omega

end Mmltk.Dataset
