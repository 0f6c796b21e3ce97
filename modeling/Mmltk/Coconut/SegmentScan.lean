import Mathlib.Data.Nat.Count
import Mmltk.Coconut.SegmentTable

namespace Mmltk.Coconut

open Mmltk.Foundation
open Mmltk.Dataset (RLEPair RowMajorMaskBounds MaskError TightBounds includeRowMajorMaskRun
  includeRowMajorMaskRun_ok runBox runBox_tight)

/-! The runs of a scan are the pixels of each segment. -/

/-- The runs of a set of pixels, as long as they can be and in order. -/
structure RunsOf (pixels : Nat → Prop) (runs : List RLEPair) : Prop where
  separated : Separated 1 (runs.map RLEPair.interval)
  covered : ∀ pixel, Covered (runs.map RLEPair.interval) pixel ↔ pixels pixel

theorem RunsOf.congr {pixels others : Nat → Prop} {runs : List RLEPair} (h : RunsOf pixels runs)
    (hsame : ∀ pixel, pixels pixel ↔ others pixel) : RunsOf others runs :=
  ⟨h.separated, fun pixel => (h.covered pixel).trans (hsame pixel)⟩

/-- A run behind the others is joined to the last one, or stands alone. -/
theorem RunsOf.append {pixels : Nat → Prop} {runs : CoconutSupportRuns} {first last : Nat}
    (h : RunsOf pixels runs.owned) (hlt : first < last)
    (hbelow : ∀ pixel, pixels pixel → pixel < first) :
    RunsOf (fun pixel => pixels pixel ∨ first ≤ pixel ∧ pixel < last)
      (runs.append first last).owned := by
  have hend : ∀ interval ∈ runs.owned.map RLEPair.interval, interval.2 ≤ first := by
    intro interval hmem
    have hvalid := (h.separated.valid interval hmem).1
    have hpixel := hbelow _ ((h.covered (interval.2 - 1)).mp ⟨interval, hmem, by omega, by omega⟩)
    omega
  have halone : (∀ interval ∈ runs.owned.map RLEPair.interval, interval.2 < first) →
      RunsOf (fun pixel => pixels pixel ∨ first ≤ pixel ∧ pixel < last)
        (runs.owned ++ [⟨first, last - first⟩]) := by
    intro hbefore
    have hinterval : RLEPair.interval ⟨first, last - first⟩ = (first, last) :=
      Prod.ext rfl (Nat.add_sub_of_le (Nat.le_of_lt hlt))
    refine ⟨?_, fun pixel => ?_⟩
    · rw [List.map_append, List.map_singleton, hinterval]
      exact h.separated.concat hlt hbefore
    · rw [List.map_append, List.map_singleton, hinterval, covered_concat, h.covered]
  rw [CoconutSupportRuns.append]
  rcases List.eq_nil_or_concat runs.owned with hnil | ⟨front, back, hconcat⟩
  · rw [hnil, List.getLast?_nil]
    rw [hnil] at halone
    exact halone nofun
  · rw [List.concat_eq_append] at hconcat
    have hback : runs.owned.getLast? = some back := by rw [hconcat, List.getLast?_concat]
    rw [hback]
    simp only
    split
    · next hmeets =>
        have hsplit : runs.owned.map RLEPair.interval =
            front.map RLEPair.interval ++ [(back.start, first)] := by
          rw [hconcat, List.map_append, List.map_singleton, RLEPair.interval, hmeets]
        have hinterval : RLEPair.interval { back with length := back.length + (last - first) } =
            (back.start, last) := by
          refine Prod.ext rfl ?_
          simp only [RLEPair.interval]
          omega
        have hseparated := hsplit ▸ h.separated
        have hvalid := (hseparated.valid _ (List.mem_append_right _ List.mem_cons_self)).1
        refine ⟨?_, fun pixel => ?_⟩
        · rw [hconcat, List.dropLast_concat, List.map_append, List.map_singleton, hinterval]
          exact hseparated.widen (Nat.le_of_lt hlt)
        · rw [hconcat, List.dropLast_concat, List.map_append, List.map_singleton, hinterval,
            covered_widen (Nat.le_of_lt hvalid) (Nat.le_of_lt hlt), ← hsplit, h.covered]
    · next hgap =>
        refine halone fun interval hmem => ?_
        have hlast : interval.2 ≤ back.interval.2 := by
          rw [hconcat, List.map_append, List.map_singleton] at hmem
          refine (@Separated.le_last 1) ?_ hmem
          rw [← List.map_singleton, ← List.map_append, ← hconcat]
          exact h.separated
        have hbackEnd := hend back.interval
          (List.mem_map_of_mem (List.mem_of_getLast? hback))
        have hne : back.interval.2 ≠ first := hgap
        omega

/-- What a support says of a segment of which some of the pixels were seen. -/
structure Counted {B : Type} (image : DecodedImage) (segment : CoconutSegment) (alone : Prop)
    (limit : Nat) (support : CoconutSegmentSupport B) : Prop where
  valid : support.valid = true ↔ alone
  area : alone → support.area = Nat.count (fun pixel => image.idAt pixel = segment.id) limit
  bounds : alone →
    TightBounds image.width (fun pixel => pixel < limit ∧ image.idAt pixel = segment.id)
      support.bounds
  runs : alone → segment.isthing = true →
    RunsOf (fun pixel => pixel < limit ∧ image.idAt pixel = segment.id) support.runs.owned
  noRuns : ¬ (alone ∧ segment.isthing = true) → support.runs.owned = []
  nothing : ¬ alone → support.area = 0 ∧ support.bounds = {}
  forgotten : support.runs.borrowed = [] ∧ support.recovered = none ∧ support.carved = false

section

variable {B : Type} {image : DecodedImage} {segment : CoconutSegment} {alone : Prop}
  {first last : Nat} {support : CoconutSegmentSupport B}

theorem count_between {colour : Nat → Prop} [DecidablePred colour] (hle : first ≤ last) :
    Nat.count colour last = Nat.count colour first +
      Nat.count (fun index => colour (first + index)) (last - first) := by
  rw [← Nat.count_add, Nat.add_sub_of_le hle]

theorem counted_fresh {valid : Bool} (hvalid : valid = true ↔ alone) :
    Counted image segment alone 0 (fresh B valid) where
  valid := hvalid
  area _ := (Nat.count_zero _).symm
  bounds _ := TightBounds.nothing.congr fun _ =>
    iff_of_false not_false fun h => Nat.not_lt_zero _ h.1
  runs _ _ := ⟨.nil, fun _ => iff_of_false covered_nil fun h => Nat.not_lt_zero _ h.1⟩
  noRuns _ := rfl
  nothing _ := ⟨rfl, rfl⟩
  forgotten := ⟨rfl, rfl, rfl⟩

theorem Counted.skip (h : Counted image segment alone first support) (hle : first ≤ last)
    (hother : alone → ∀ pixel, first ≤ pixel → pixel < last → image.idAt pixel ≠ segment.id) :
    Counted image segment alone last support := by
  have hsame : alone → ∀ pixel, (pixel < first ∧ image.idAt pixel = segment.id) ↔
      (pixel < last ∧ image.idAt pixel = segment.id) := by
    intro halone pixel
    refine and_congr_left fun hcolour => ⟨fun hlt => hlt.trans_le hle, fun hlt => ?_⟩
    exact Nat.lt_of_not_le fun hge => hother halone pixel hge hlt hcolour
  refine { h with
    area := fun halone => ?_
    bounds := fun halone => (h.bounds halone).congr (hsame halone)
    runs := fun halone hthing => (h.runs halone hthing).congr (hsame halone) }
  rw [h.area halone, count_between hle, Nat.left_eq_add, Nat.count_iff_forall_not]
  exact fun index hindex => hother halone (first + index) (by omega) (by omega)

/-- Pixels of the segment's colour are counted, boxed and put in a run. -/
theorem Counted.take (h : Counted image segment alone first support) (hlt : first < last)
    (halone : alone) (hcolour : ∀ pixel, first ≤ pixel → pixel < last → image.idAt pixel = segment.id)
    (hwidth : 0 < image.width) (hfits : image.width < 2 ^ 32)
    (hrows : (last - 1) / image.width < 2 ^ 32) :
    ∃ after, CoconutNativeWorkspace.includeRun support segment.isthing first last image.width =
        .ok after ∧ Counted image segment alone last after := by
  have hbox := includeRowMajorMaskRun_ok (h.bounds halone) hwidth hfits hlt hrows
  have hpixels : ∀ pixel, ((pixel < first ∧ image.idAt pixel = segment.id) ∨
      first ≤ pixel ∧ pixel < last) ↔ pixel < last ∧ image.idAt pixel = segment.id := by
    intro pixel
    constructor
    · rintro (⟨hbefore, hsame⟩ | ⟨hge, hless⟩)
      · exact ⟨hbefore.trans hlt, hsame⟩
      · exact ⟨hless, hcolour pixel hge hless⟩
    · intro ⟨hless, hsame⟩
      rcases Nat.lt_or_ge pixel first with hbefore | hge
      · exact .inl ⟨hbefore, hsame⟩
      · exact .inr ⟨hge, hless⟩
  refine ⟨{ support with
    area := support.area + (last - first)
    bounds := support.bounds.join (runBox first last image.width)
    runs := if segment.isthing then support.runs.append first last else support.runs },
    by rw [CoconutNativeWorkspace.includeRun, hbox]; rfl, h.valid, fun _ => ?_, fun _ => ?_,
    fun _ hthing => ?_, fun hnot => ?_, fun hnot => absurd halone hnot, ?_⟩
  · have hcount : Nat.count (fun index => image.idAt (first + index) = segment.id) (last - first) =
        last - first :=
      Nat.count_of_forall fun index hindex => hcolour (first + index) (by omega) (by omega)
    simp only
    rw [h.area halone, count_between (Nat.le_of_lt hlt), hcount]
  · exact ((h.bounds halone).join (runBox_tight hwidth hlt) rfl).congr hpixels
  · simp only [hthing, if_true]
    exact ((h.runs halone hthing).append hlt fun pixel hpixel => hpixel.1).congr hpixels
  · have hstuff : segment.isthing ≠ true := fun hthing => hnot ⟨halone, hthing⟩
    simp only [hstuff]
    exact h.noRuns hnot
  · refine ⟨?_, h.forgotten.2⟩
    simp only
    split
    · rw [CoconutSupportRuns.append]
      split
      · split
        · exact h.forgotten.1
        · exact h.forgotten.1
      · exact h.forgotten.1
    · exact h.forgotten.1

end

/-- The pixel is of no segment, or of one that is listed. -/
def Named (all : List CoconutSegment) (image : DecodedImage) (pixel : Nat) : Prop :=
  image.idAt pixel = 0 ∨ ListedBefore all all.length (image.idAt pixel)

/-- The first colour that no segment has, or none. -/
def Unlisted (all : List CoconutSegment) (image : DecodedImage) (limit unlisted : Nat) : Prop :=
  (unlisted = 0 ∧ ∀ pixel < limit, Named all image pixel) ∨
    ∃ pixel < limit, unlisted = image.idAt pixel ∧ ¬ Named all image pixel ∧
      ∀ before < pixel, Named all image before

section

variable {all : List CoconutSegment} {image : DecodedImage} {first last unlisted : Nat}

theorem Unlisted.skip (h : Unlisted all image first unlisted) (hle : first ≤ last)
    (hnamed : ∀ pixel, first ≤ pixel → pixel < last → Named all image pixel) :
    Unlisted all image last unlisted := by
  rcases h with ⟨hzero, hall⟩ | ⟨pixel, hpixel, rest⟩
  · refine .inl ⟨hzero, fun pixel hpixel => ?_⟩
    rcases Nat.lt_or_ge pixel first with hbefore | hge
    · exact hall pixel hbefore
    · exact hnamed pixel hge hpixel
  · exact .inr ⟨pixel, hpixel.trans_le hle, rest⟩

theorem Unlisted.take (h : Unlisted all image first unlisted) (hlt : first < last)
    (hunnamed : ¬ Named all image first) :
    Unlisted all image last (if unlisted = 0 then image.idAt first else unlisted) := by
  rcases h with ⟨rfl, hall⟩ | ⟨pixel, hpixel, hcolour, hnot, hbefore⟩
  · exact .inr ⟨first, hlt, if_pos rfl, hunnamed, hall⟩
  · have hne : unlisted ≠ 0 := fun hzero => hnot (.inl (hcolour.symm.trans hzero))
    exact .inr ⟨pixel, hpixel.trans hlt, (if_neg hne).trans hcolour, hnot, hbefore⟩

end

end Mmltk.Coconut
