import Mmltk.Dataset.MaskBounds

namespace Mmltk.Dataset

open Mmltk.Foundation

/-! What the emitter makes of runs in order. -/

/-- The pixels of a run. -/
def RLEPair.interval (run : RLEPair) : Interval := (run.start, run.start + run.length)

namespace MaskRunEmitter

/-- The emitter has put out the canonical runs of the pixels, as far as there is room. -/
structure Emitted (existing : List RLEPair) (width maximum : Nat) (own : List RLEPair)
    (pixels : Nat → Prop) (limit : Nat) (emitter : MaskRunEmitter) : Prop where
  firstEq : emitter.first = existing.length
  widthEq : emitter.width = width
  maximumEq : emitter.maximum = maximum
  requiredEq : emitter.required = existing.length + own.length
  outputEq : emitter.output = existing ++ own.take (maximum - existing.length)
  lastEq : ∀ run ∈ own.getLast?, emitter.last = run
  separated : Separated 1 (own.map RLEPair.interval)
  covered : ∀ pixel, Covered (own.map RLEPair.interval) pixel ↔ pixels pixel
  below : ∀ pixel, pixels pixel → pixel < limit
  bounds : TightBounds width pixels emitter.bounds

variable {existing own : List RLEPair} {width maximum limit first last : Nat}
  {pixels others : Nat → Prop} {emitter : MaskRunEmitter}

theorem Emitted.congr (h : Emitted existing width maximum own pixels limit emitter)
    (hsame : ∀ pixel, pixels pixel ↔ others pixel) :
    Emitted existing width maximum own others limit emitter := by
  obtain rfl : pixels = others := funext fun pixel => propext (hsame pixel)
  exact h

theorem Emitted.mono {more : Nat} (h : Emitted existing width maximum own pixels limit emitter)
    (hle : limit ≤ more) : Emitted existing width maximum own pixels more emitter :=
  { h with below := fun pixel hpixel => (h.below pixel hpixel).trans_le hle }

theorem create_emitted (existing : List RLEPair) (width maximum : Nat)
    (startError lengthError : String) :
    Emitted existing width maximum [] (fun _ => False) 0
      (create existing existing.length width startError lengthError maximum) where
  firstEq := rfl
  widthEq := rfl
  maximumEq := rfl
  requiredEq := rfl
  outputEq := by
    rw [List.take_nil, List.append_nil]
    rfl
  lastEq := nofun
  separated := .nil
  covered := fun _ => iff_of_false covered_nil not_false
  below := nofun
  bounds := .nothing

theorem Emitted.end_le (h : Emitted existing width maximum own pixels limit emitter)
    {interval : Interval} (hmem : interval ∈ own.map RLEPair.interval) : interval.2 ≤ limit := by
  have hvalid := (h.separated.valid interval hmem).1
  have hpixel := (h.covered (interval.2 - 1)).mp ⟨interval, hmem, by omega, by omega⟩
  have hbelow := h.below _ hpixel
  omega

/-- The emitter with a box more. -/
def boxed (emitter : MaskRunEmitter) (first last : Nat) : MaskRunEmitter :=
  { emitter with bounds := emitter.bounds.join (runBox first last emitter.width) }

theorem Emitted.append (h : Emitted existing width maximum own pixels limit emitter)
    (hwidth : 0 < width) (hlt : first < last)
    (hbefore : ∀ interval ∈ own.map RLEPair.interval, interval.2 < first) (hlimit : limit ≤ first) :
    Emitted existing width maximum (own ++ [⟨first, last - first⟩])
      (fun pixel => pixels pixel ∨ first ≤ pixel ∧ pixel < last) last
      ((emitter.append first (last - first)).boxed first last) where
  firstEq := h.firstEq
  widthEq := h.widthEq
  maximumEq := h.maximumEq
  requiredEq := by
    rw [List.length_append, List.length_singleton, ← Nat.add_assoc, ← h.requiredEq]
    rfl
  outputEq := by
    change (if emitter.required + 1 ≤ emitter.maximum then _ else _) = _
    rw [h.requiredEq, h.maximumEq, h.outputEq]
    split
    next hroom =>
      rw [List.take_of_length_le (by omega), List.take_of_length_le (by simp; omega),
        List.append_assoc]
    next hfull => rw [List.take_append_of_le_length (by omega)]
  lastEq := by
    intro run hrun
    rw [List.getLast?_concat] at hrun
    exact Option.some.inj hrun
  separated := by
    have hends : first + (last - first) = last := by omega
    rw [List.map_append, List.map_singleton, RLEPair.interval, hends]
    exact h.separated.concat hlt hbefore
  covered := by
    intro pixel
    have hends : first + (last - first) = last := by omega
    rw [List.map_append, List.map_singleton, RLEPair.interval, hends, covered_concat, h.covered]
  below := by
    intro pixel hpixel
    obtain hold | hnew := hpixel
    · exact ((h.below pixel hold).trans_le hlimit).trans hlt
    · exact hnew.2
  bounds := by
    change TightBounds width _ (emitter.bounds.join (runBox first last emitter.width))
    rw [h.widthEq]
    exact h.bounds.join (runBox_tight hwidth hlt) rfl

theorem Emitted.extend {init : List RLEPair} {run : RLEPair}
    (h : Emitted existing width maximum (init ++ [run]) pixels limit emitter)
    (hwidth : 0 < width) (hlt : first < last) (hmeets : run.start + run.length = first)
    (hlimit : limit ≤ first) (hlast : last < 2 ^ 32) :
    ∃ joined, emitter.extend last = .ok joined ∧
      Emitted existing width maximum (init ++ [⟨run.start, last - run.start⟩])
        (fun pixel => pixels pixel ∨ first ≤ pixel ∧ pixel < last) last
        (joined.boxed first last) := by
  have hrun : emitter.last = run := h.lastEq run (by rw [List.getLast?_concat]; rfl)
  have hends : run.start + (last - run.start) = last := by omega
  have hseparated : Separated 1 (init.map RLEPair.interval ++ [(run.start, first)]) := by
    have hold := h.separated
    rwa [List.map_append, List.map_singleton, RLEPair.interval, hmeets] at hold
  have hcovered : ∀ pixel, Covered (init.map RLEPair.interval ++ [(run.start, first)]) pixel ↔
      pixels pixel := fun pixel => by
    have hold := h.covered pixel
    rwa [List.map_append, List.map_singleton, RLEPair.interval, hmeets] at hold
  rw [MaskRunEmitter.extend, hrun, checkedCast_ok (by omega)]
  refine ⟨_, rfl, h.firstEq, h.widthEq, h.maximumEq, ?_, ?_, fun last hlast => ?_, ?_, fun pixel => ?_,
    fun pixel hpixel => ?_, ?_⟩
  · change emitter.required = _
    rw [h.requiredEq, List.length_append, List.length_append, List.length_singleton,
      List.length_singleton]
  · change (if emitter.required ≤ emitter.maximum then _ else _) = _
    rw [h.requiredEq, h.maximumEq, h.outputEq, List.length_append, List.length_singleton]
    split
    next hroom =>
      rw [List.take_of_length_le (by simp; omega), List.take_of_length_le (by simp; omega),
        ← List.append_assoc, List.dropLast_concat, List.append_assoc]
    next hfull =>
      rw [List.take_append_of_le_length (by omega), List.take_append_of_le_length (by omega)]
  · rw [List.getLast?_concat] at hlast
    exact Option.some.inj hlast
  · rw [List.map_append, List.map_singleton, RLEPair.interval, hends]
    exact hseparated.widen hlt.le
  · rw [List.map_append, List.map_singleton, RLEPair.interval, hends,
      covered_widen (show run.start ≤ first by omega) hlt.le, hcovered]
  · obtain hold | hnew := hpixel
    · exact ((h.below pixel hold).trans_le hlimit).trans hlt
    · exact hnew.2
  · change TightBounds width _ (emitter.bounds.join (runBox first last emitter.width))
    rw [h.widthEq]
    exact h.bounds.join (runBox_tight hwidth hlt) rfl

theorem Emitted.includes (h : Emitted existing width maximum own pixels limit emitter)
    (hwidth : 0 < width) (hfits : width < 2 ^ 32) (hlt : first < last) (hlast : last < 2 ^ 32) :
    includeRowMajorMaskRun emitter.bounds first last emitter.width =
      .ok (emitter.bounds.join (runBox first last emitter.width)) := by
  rw [h.widthEq]
  exact includeRowMajorMaskRun_ok h.bounds hwidth hfits hlt
    ((Nat.div_le_self _ _).trans_lt (by omega))

theorem Emitted.run (h : Emitted existing width maximum own pixels limit emitter)
    (hwidth : 0 < width) (hfits : width < 2 ^ 32) (hlimit : limit ≤ first) (hle : first ≤ last)
    (hlast : last < 2 ^ 32) :
    ∃ own emitted, emitter.run first last = .ok emitted ∧
      Emitted existing width maximum own
        (fun pixel => pixels pixel ∨ first ≤ pixel ∧ pixel < last) last emitted := by
  rw [MaskRunEmitter.run]
  by_cases hempty : first = last
  · rw [if_pos hempty]
    exact ⟨own, emitter, rfl, (h.mono (hlimit.trans hle)).congr fun pixel =>
      (or_iff_left (by omega)).symm⟩
  have hlt : first < last := by omega
  rw [if_neg hempty, checkedCast_ok (by omega), checkedCast_ok (by omega)]
  have hincludes := h.includes hwidth hfits hlt hlast
  by_cases hjoins : emitter.first < emitter.required ∧
      emitter.last.start + emitter.last.length = first
  · obtain rfl | ⟨init, run, rfl⟩ := List.eq_nil_or_concat' own
    · have hrequired := h.requiredEq
      rw [List.length_nil, ← h.firstEq] at hrequired
      omega
    · have hrun : emitter.last = run := h.lastEq run (by rw [List.getLast?_concat]; rfl)
      obtain ⟨joined, hjoined, hemitted⟩ := h.extend hwidth hlt (hrun ▸ hjoins.2) hlimit hlast
      have hsame : joined.bounds = emitter.bounds ∧ joined.width = emitter.width := by
        rw [MaskRunEmitter.extend, hrun, checkedCast_ok (by omega)] at hjoined
        cases hjoined
        exact ⟨rfl, rfl⟩
      refine ⟨_, _, ?_, hemitted⟩
      simp only [if_pos hjoins, if_neg (not_lt.mpr hle), hjoined, hsame.1, hsame.2, hincludes,
        bind, Except.bind, pure, Except.pure, boxed]
  · have hbefore : ∀ interval ∈ own.map RLEPair.interval, interval.2 < first := by
      intro interval hmem
      refine lt_of_le_of_ne ((h.end_le hmem).trans hlimit) fun hmeets => ?_
      obtain rfl | ⟨init, run, rfl⟩ := List.eq_nil_or_concat' own
      · exact nomatch hmem
      · -- the last run alone may end at the limit
        have hrun : emitter.last = run := h.lastEq run (by rw [List.getLast?_concat]; rfl)
        have hrequired := h.requiredEq
        rw [List.length_append, List.length_singleton, ← h.firstEq] at hrequired
        rw [List.map_append, List.map_singleton] at hmem
        have hseparated := h.separated
        rw [List.map_append, List.map_singleton] at hseparated
        have hle := hseparated.le_last hmem
        have hend : run.interval.2 ≤ limit := h.end_le (by simp)
        refine hjoins ⟨by omega, ?_⟩
        rw [hrun]
        change run.interval.2 = first
        omega
    refine ⟨_, _, ?_, h.append hwidth hlt hbefore hlimit⟩
    have hsame : (emitter.append first (last - first)).bounds = emitter.bounds ∧
        (emitter.append first (last - first)).width = emitter.width := ⟨rfl, rfl⟩
    simp only [if_neg hjoins, if_neg (not_lt.mpr hle), hsame.1, hsame.2, hincludes, bind,
      Except.bind, pure, Except.pure, boxed]

end MaskRunEmitter

end Mmltk.Dataset
