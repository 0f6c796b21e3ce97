import Mmltk.Dataset.MaskRuns

namespace Mmltk.Dataset

/-! The bounds of a mask are the box around its pixels. -/

/-- The box around a set of pixels of a width, if there are any. -/
structure TightBounds (width : Nat) (pixels : Nat → Prop) (bounds : RowMajorMaskBounds) : Prop where
  empty : bounds.hasForeground = false → bounds = {} ∧ ∀ pixel, ¬ pixels pixel
  within : bounds.hasForeground = true → ∀ pixel, pixels pixel →
    (bounds.minX ≤ pixel % width ∧ pixel % width < bounds.maxX) ∧
      bounds.minY ≤ pixel / width ∧ pixel / width < bounds.maxY
  reached : bounds.hasForeground = true →
    (∃ pixel, pixels pixel ∧ pixel % width = bounds.minX) ∧
    (∃ pixel, pixels pixel ∧ pixel % width + 1 = bounds.maxX) ∧
    (∃ pixel, pixels pixel ∧ pixel / width = bounds.minY) ∧
    ∃ pixel, pixels pixel ∧ pixel / width + 1 = bounds.maxY

variable {width first last : Nat} {pixels others : Nat → Prop} {bounds : RowMajorMaskBounds}

theorem TightBounds.congr (h : TightBounds width pixels bounds)
    (hsame : ∀ pixel, pixels pixel ↔ others pixel) : TightBounds width others bounds := by
  obtain rfl : pixels = others := funext fun pixel => propext (hsame pixel)
  exact h

theorem TightBounds.nothing : TightBounds width (fun _ => False) {} :=
  ⟨fun _ => ⟨rfl, fun _ => not_false⟩, nofun, nofun⟩

/-- The box of one run. -/
def runBox (first last width : Nat) : RowMajorMaskBounds where
  minX := if first / width = (last - 1) / width then first % width else 0
  maxX := if first / width = (last - 1) / width then (last - 1) % width + 1 else width
  minY := first / width
  maxY := (last - 1) / width + 1
  hasForeground := true

/-- A run of several rows has a pixel at either side. -/
theorem runBox_tight (hwidth : 0 < width) (hlt : first < last) :
    TightBounds width (fun pixel => first ≤ pixel ∧ pixel < last) (runBox first last width) := by
  have hfirst := Nat.div_add_mod first width
  have hlast := Nat.div_add_mod (last - 1) width
  have hfirstMod := Nat.mod_lt first hwidth
  have hlastMod := Nat.mod_lt (last - 1) hwidth
  refine ⟨nofun, fun _ pixel hpixel => ?_, fun _ => ⟨?_, ?_, ⟨first, ⟨le_refl _, hlt⟩, rfl⟩,
    ⟨last - 1, by omega, rfl⟩⟩⟩
  · have hlow : first / width ≤ pixel / width := Nat.div_le_div_right hpixel.1
    have hhigh : pixel / width ≤ (last - 1) / width := Nat.div_le_div_right (by omega)
    have hpixelMod := Nat.mod_lt pixel hwidth
    refine ⟨?_, hlow, Nat.lt_succ_of_le hhigh⟩
    dsimp only [runBox]
    split
    next hsame =>
      have hrow : pixel / width = first / width := by omega
      have hparts := Nat.div_add_mod pixel width
      rw [hrow] at hparts
      rw [← hsame] at hlast
      omega
    next => exact ⟨Nat.zero_le _, hpixelMod⟩
  · dsimp only [runBox]
    split
    next => exact ⟨first, ⟨le_refl _, hlt⟩, rfl⟩
    next hrows =>
      have hless : first / width + 1 ≤ (last - 1) / width :=
        lt_of_le_of_ne (Nat.div_le_div_right (by omega)) hrows
      have hmul := Nat.mul_le_mul_left width hless
      rw [Nat.mul_add] at hmul
      exact ⟨width * ((last - 1) / width), by omega, Nat.mul_mod_right ..⟩
  · dsimp only [runBox]
    split
    next => exact ⟨last - 1, by omega, rfl⟩
    next hrows =>
      have hless : first / width + 1 ≤ (last - 1) / width :=
        lt_of_le_of_ne (Nat.div_le_div_right (by omega)) hrows
      have hmul := Nat.mul_le_mul_left width hless
      rw [Nat.mul_add] at hmul
      refine ⟨width * (first / width) + (width - 1), by omega, ?_⟩
      rw [Nat.mul_add_mod, Nat.mod_eq_of_lt (by omega)]
      omega

/-- The bounds that take in a box. -/
def RowMajorMaskBounds.join (bounds box : RowMajorMaskBounds) : RowMajorMaskBounds :=
  if bounds.hasForeground then
    { minX := min bounds.minX box.minX, minY := min bounds.minY box.minY
      maxX := max bounds.maxX box.maxX, maxY := max bounds.maxY box.maxY, hasForeground := true }
  else box

theorem TightBounds.join (h : TightBounds width pixels bounds) {box : RowMajorMaskBounds}
    (hbox : TightBounds width others box) (hany : box.hasForeground = true) :
    TightBounds width (fun pixel => pixels pixel ∨ others pixel) (bounds.join box) := by
  rw [RowMajorMaskBounds.join]
  split
  next hold =>
    refine ⟨nofun, fun _ pixel hpixel => ?_, fun _ => ?_⟩
    · obtain hin | hin := hpixel
      · have hwithin := h.within hold pixel hin
        dsimp only
        omega
      · have hwithin := hbox.within hany pixel hin
        dsimp only
        omega
    · obtain ⟨⟨left, hleft, hminX⟩, ⟨right, hright, hmaxX⟩, ⟨top, htop, hminY⟩, bottom, hbottom,
        hmaxY⟩ := h.reached hold
      obtain ⟨⟨leftBox, hleftBox, hminXBox⟩, ⟨rightBox, hrightBox, hmaxXBox⟩,
        ⟨topBox, htopBox, hminYBox⟩, bottomBox, hbottomBox, hmaxYBox⟩ := hbox.reached hany
      refine ⟨?_, ?_, ?_, ?_⟩
      · obtain hle | hle := le_total bounds.minX box.minX
        · exact ⟨left, .inl hleft, by dsimp only; omega⟩
        · exact ⟨leftBox, .inr hleftBox, by dsimp only; omega⟩
      · obtain hle | hle := le_total bounds.maxX box.maxX
        · exact ⟨rightBox, .inr hrightBox, by dsimp only; omega⟩
        · exact ⟨right, .inl hright, by dsimp only; omega⟩
      · obtain hle | hle := le_total bounds.minY box.minY
        · exact ⟨top, .inl htop, by dsimp only; omega⟩
        · exact ⟨topBox, .inr htopBox, by dsimp only; omega⟩
      · obtain hle | hle := le_total bounds.maxY box.maxY
        · exact ⟨bottomBox, .inr hbottomBox, by dsimp only; omega⟩
        · exact ⟨bottom, .inl hbottom, by dsimp only; omega⟩
  next hnew =>
    have hnone := (h.empty (by simpa using hnew)).2
    exact hbox.congr fun pixel => (or_iff_right (hnone pixel)).symm

theorem checkedCast_ok {value : Nat} {message : String} (h : value < 2 ^ 32) :
    checkedCast value message = .ok value := if_pos h

theorem includeRowMajorMaskRun_ok (h : TightBounds width pixels bounds) (hwidth : 0 < width)
    (hfits : width < 2 ^ 32) (hlt : first < last) (hrows : (last - 1) / width < 2 ^ 32) :
    includeRowMajorMaskRun bounds first last width = .ok (bounds.join (runBox first last width)) := by
  have hle : first / width ≤ (last - 1) / width := Nat.div_le_div_right (by omega)
  have hfirstMod := Nat.mod_lt first hwidth
  have hlastMod := Nat.mod_lt (last - 1) hwidth
  have hmaxX : bounds.hasForeground = true → bounds.maxX ≤ width := fun hold => by
    obtain ⟨-, ⟨pixel, -, hpixel⟩, -⟩ := h.reached hold
    have hmod := Nat.mod_lt pixel hwidth
    omega
  rw [includeRowMajorMaskRun, checkedCast_ok (hle.trans_lt hrows),
    checkedCast_ok (hfirstMod.trans hfits), checkedCast_ok hrows,
    checkedCast_ok (hlastMod.trans hfits)]
  cases hold : bounds.hasForeground with
  | false =>
      by_cases hsame : first / width = (last - 1) / width <;>
        simp [bind, Except.bind, pure, Except.pure, RowMajorMaskBounds.join, runBox, hold, hsame]
  | true =>
      have hright := hmaxX hold
      by_cases hsame : first / width = (last - 1) / width <;>
        simp [bind, Except.bind, pure, Except.pure, RowMajorMaskBounds.join, runBox, hold, hsame,
          hright]

end Mmltk.Dataset
