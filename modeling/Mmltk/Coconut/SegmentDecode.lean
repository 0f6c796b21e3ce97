import Mmltk.Coconut.SegmentScan

namespace Mmltk.Coconut

open Mmltk.Dataset (RLEPair RowMajorMaskBounds MaskError TightBounds)

/-! The whole scan: each segment's support is that of its pixels. -/

/-- The supports of a record after some of the pixels. -/
structure Scanned {B : Type} (all : List CoconutSegment) (image : DecodedImage)
    (table : List SegmentEntry) (limit : Nat) (workspace : CoconutNativeWorkspace B) : Prop where
  segments : workspace.segments = table
  supports : ∀ index segment, all[index]? = some segment →
    ∃ support, workspace.support[index]? = some support ∧
      Counted image segment (Alone all all.length index segment) limit support
  unlisted : Unlisted all image limit workspace.unlistedSegment

variable {B : Type} {all : List CoconutSegment} {image : DecodedImage} {table : List SegmentEntry}
  {workspace : CoconutNativeWorkspace B} {first last id : Nat}

namespace Scanned

theorem skip (h : Scanned all image table first workspace) (hle : first ≤ last)
    (hother : ∀ index segment, all[index]? = some segment → Alone all all.length index segment →
      ∀ pixel, first ≤ pixel → pixel < last → image.idAt pixel ≠ segment.id)
    {unlisted : Nat} (hunlisted : Unlisted all image last unlisted) :
    Scanned all image table last { workspace with unlistedSegment := unlisted } := by
  refine ⟨h.segments, fun index segment hsegment => ?_, hunlisted⟩
  obtain ⟨support, hsupport, hcounted⟩ := h.supports index segment hsegment
  exact ⟨support, hsupport, hcounted.skip hle (hother index segment hsegment)⟩

theorem scanRun_colour (htable : Table all all.length table) (hroom : all.length < table.length)
    (h : Scanned all image table first workspace) (hlt : first < last) (hid : id ≠ 0)
    (hcolour : ∀ pixel, first ≤ pixel → pixel < last → image.idAt pixel = id)
    (hwidth : 0 < image.width) (hfits : image.width < 2 ^ 32)
    (hrows : (last - 1) / image.width < 2 ^ 32) :
    ∃ after, workspace.scanRun all id first last image.width = .ok after ∧
      Scanned all image table last after := by
  have hhere := hcolour first (Nat.le_refl _) hlt
  obtain rfl := h.segments
  obtain ⟨slot, hslot, hentry, hfound⟩ := htable.segmentEntry_spec hroom hid
  rw [CoconutNativeWorkspace.scanRun, if_neg hid, hentry]
  rcases hfound with ⟨hsame, hstored⟩ | ⟨hfree, hnew, -⟩
  · obtain ⟨segment, hsegment, hindex, hlistable, rfl, hfirst⟩ := htable.entry slot hslot _ hstored
    have hnamed : Unlisted all image last workspace.unlistedSegment := by
      refine h.unlisted.skip (Nat.le_of_lt hlt) fun pixel hge hless => .inr ?_
      rw [hcolour pixel hge hless]
      exact ⟨_, hindex, segment, hsegment, hlistable, rfl⟩
    -- Another segment that stands alone has another id.
    have hothers : ∀ index item, all[index]? = some item → Alone all all.length index item →
        index ≠ (workspace.segments.getD slot default).index → item.id ≠ segment.id :=
      fun index item _ halone hne hsameId =>
        halone.2 _ hindex hne.symm segment hsegment hlistable hsameId.symm
    obtain ⟨support, hsupport, hcounted⟩ := h.supports _ segment hsegment
    simp only [hsame, hid, if_false, hsupport, hsegment]
    cases hvalid : support.valid with
    | false =>
        refine ⟨workspace, rfl, h.skip (Nat.le_of_lt hlt) ?_ hnamed⟩
        intro index item hitem halone pixel hge hless
        rw [hcolour pixel hge hless]
        refine (hothers index item hitem halone fun hsameIndex => ?_).symm
        subst hsameIndex
        obtain rfl := Option.some.inj (hsegment.symm.trans hitem)
        rw [hcounted.valid.mpr halone] at hvalid
        contradiction
    | true =>
        obtain ⟨taken, hinclude, htaken⟩ := hcounted.take hlt (hcounted.valid.mp hvalid) hcolour
          hwidth hfits hrows
        rw [hinclude]
        refine ⟨_, rfl, rfl, fun index item hitem => ?_, hnamed⟩
        rcases eq_or_ne index (workspace.segments.getD slot default).index with rfl | hne
        · obtain rfl := Option.some.inj (hsegment.symm.trans hitem)
          exact ⟨taken, List.getElem?_set_self (List.getElem?_eq_some_iff.mp hsupport).1, htaken⟩
        · obtain ⟨other, hother, hcountedOther⟩ := h.supports index item hitem
          refine ⟨other, (List.getElem?_set_ne hne.symm).trans hother,
            hcountedOther.skip (Nat.le_of_lt hlt) fun halone pixel hge hless => ?_⟩
          rw [hcolour pixel hge hless]
          exact (hothers index item hitem halone hne).symm
  · have hunnamed : ¬ Named all image first := by
      rintro (hzero | hlisted)
      · exact hid (hhere.symm.trans hzero)
      · exact hnew (hhere ▸ hlisted)
    have hskip := h.skip (Nat.le_of_lt hlt) (fun index item hitem halone pixel hge hless hsame =>
      hnew ⟨index, (List.getElem?_eq_some_iff.mp hitem).1, item, hitem, halone.1,
        hsame.symm.trans (hcolour pixel hge hless)⟩) (h.unlisted.take hlt hunnamed)
    simp only [hfree, if_true]
    rw [hhere] at hskip
    split
    · next hzero =>
        rw [if_pos hzero] at hskip
        exact ⟨_, rfl, hskip⟩
    · next hset =>
        rw [if_neg hset] at hskip
        exact ⟨_, rfl, hskip⟩

/-- A run of one colour. -/
theorem scanRun_spec (htable : Table all all.length table) (hroom : all.length < table.length)
    (h : Scanned all image table first workspace) (hlt : first < last)
    (hcolour : ∀ pixel, first ≤ pixel → pixel < last → image.idAt pixel = id)
    (hwidth : 0 < image.width) (hfits : image.width < 2 ^ 32)
    (hrows : (last - 1) / image.width < 2 ^ 32) :
    ∃ after, workspace.scanRun all id first last image.width = .ok after ∧
      Scanned all image table last after := by
  rcases eq_or_ne id 0 with rfl | hid
  · refine ⟨workspace, if_pos rfl, h.skip (Nat.le_of_lt hlt) ?_
      (h.unlisted.skip (Nat.le_of_lt hlt) fun pixel hge hless => .inl (hcolour pixel hge hless))⟩
    intro index segment _ halone pixel hge hless hsame
    exact listable_id_ne halone.1 (hsame.symm.trans (hcolour pixel hge hless))
  · exact h.scanRun_colour htable hroom hlt hid hcolour hwidth hfits hrows

end Scanned

namespace CoconutNativeWorkspace

/-- A run ends where the colour does, at the limit at the latest. -/
theorem runEnd_spec (fuel : Nat) : first ≤ runEnd image id fuel first ∧
    runEnd image id fuel first ≤ first + fuel ∧
    ∀ pixel, first ≤ pixel → pixel < runEnd image id fuel first → image.idAt pixel = id := by
  induction fuel generalizing first with
  | zero => exact ⟨Nat.le_refl _, Nat.le_refl _, fun pixel hge hless => absurd hless (Nat.not_lt.mpr hge)⟩
  | succ fuel ih =>
      rw [runEnd]
      split
      · next hsame =>
          obtain ⟨hge, hle, hcolour⟩ := @ih (first + 1)
          refine ⟨by omega, by omega, fun pixel hfrom hless => ?_⟩
          rcases Nat.eq_or_lt_of_le hfrom with rfl | hmore
          · exact hsame
          · exact hcolour pixel hmore hless
      · exact ⟨Nat.le_refl _, Nat.le_add_right _ _,
          fun pixel hge hless => absurd hless (Nat.not_lt.mpr hge)⟩

theorem scan_spec {count fuel : Nat} (htable : Table all all.length table)
    (hroom : all.length < table.length) (h : Scanned all image table first workspace)
    (hfirst : first ≤ count) (hfuel : count ≤ first + fuel) (hwidth : 0 < image.width)
    (hfits : image.width < 2 ^ 32) (hcount : count < 2 ^ 32) :
    ∃ after, scan all image count fuel first workspace = .ok after ∧
      Scanned all image table count after := by
  induction fuel generalizing first workspace with
  | zero =>
      obtain rfl : first = count := by omega
      exact ⟨workspace, if_pos (Nat.le_refl _), h⟩
  | succ fuel ih =>
      rw [scan]
      split
      · next hend =>
          obtain rfl := Nat.le_antisymm hfirst hend
          exact ⟨workspace, rfl, h⟩
      · next hmore =>
          have hrow : first < (first / image.width + 1) * image.width := by
            have hparts := Nat.div_add_mod first image.width
            have hmod := Nat.mod_lt first hwidth
            rw [Nat.add_one_mul, Nat.mul_comm]
            omega
          obtain ⟨hge, hle, hsame⟩ := (@runEnd_spec image (first + 1) (image.idAt first))
            (min count ((first / image.width + 1) * image.width) - (first + 1))
          have hcolour : ∀ pixel, first ≤ pixel → pixel < runEnd image (image.idAt first)
              (min count ((first / image.width + 1) * image.width) - (first + 1)) (first + 1) →
              image.idAt pixel = image.idAt first := by
            intro pixel hfrom hless
            rcases Nat.eq_or_lt_of_le hfrom with rfl | hafter
            · rfl
            · exact hsame pixel hafter hless
          have hlast : runEnd image (image.idAt first)
              (min count ((first / image.width + 1) * image.width) - (first + 1)) (first + 1) ≤
                count := by omega
          obtain ⟨middle, hscan, hscanned⟩ := h.scanRun_spec htable hroom (by omega) hcolour hwidth
            hfits ((Nat.div_le_self _ _).trans_lt (by omega))
          obtain ⟨after, hrest, hdone⟩ := ih hscanned hlast (by omega)
          refine ⟨after, ?_, hdone⟩
          show (workspace.scanRun all _ first _ image.width >>= _) = _
          rw [hscan]
          exact hrest

end CoconutNativeWorkspace

/-- The colour of a pixel as one number of 24 bits. -/
def DecodedImage.colour (image : DecodedImage) (position : Nat) : Nat :=
  (image.pixel (position * 3)).toNat + 2 ^ 8 * (image.pixel (position * 3 + 1)).toNat +
    2 ^ 16 * (image.pixel (position * 3 + 2)).toNat

theorem idAt_eq_colour (image : DecodedImage) (position : Nat) :
    image.idAt position = image.colour position := by
  have hred := (image.pixel (position * 3)).toNat_lt
  have hgreen := (image.pixel (position * 3 + 1)).toNat_lt
  have hlow : (image.pixel (position * 3)).toNat ||| (image.pixel (position * 3 + 1)).toNat <<< 8 =
      2 ^ 8 * (image.pixel (position * 3 + 1)).toNat + (image.pixel (position * 3)).toNat := by
    rw [Nat.shiftLeft_eq, Nat.mul_comm _ (2 ^ 8), Nat.lor_comm, ← Nat.two_pow_add_eq_or_of_lt hred]
  rw [DecodedImage.idAt, hlow, Nat.shiftLeft_eq, Nat.mul_comm _ (2 ^ 16), Nat.lor_comm,
    ← Nat.two_pow_add_eq_or_of_lt (by omega), DecodedImage.colour]
  omega

/-- A segment of the record that can be told from all others by its id. -/
def ValidSegment (segments : List CoconutSegment) (index : Nat) (segment : CoconutSegment) : Prop :=
  (segment.valid = true ∧ 0 < segment.id ∧ segment.id < 2 ^ 24) ∧
    ∀ other item, segments[other]? = some item → other ≠ index →
      item.valid = true → 0 < item.id → item.id < 2 ^ 24 → item.id ≠ segment.id

theorem listable_iff {segment : CoconutSegment} :
    CoconutNativeWorkspace.listable segment = true ↔
      segment.valid = true ∧ 0 < segment.id ∧ segment.id < 2 ^ 24 := by
  simp only [CoconutNativeWorkspace.listable, Bool.and_eq_true, decide_eq_true_eq, and_assoc]
  refine and_congr_right fun _ => ?_
  omega

theorem alone_iff_valid {segments : List CoconutSegment} {index : Nat} {segment : CoconutSegment} :
    Alone segments segments.length index segment ↔ ValidSegment segments index segment := by
  rw [Alone, ValidSegment, listable_iff]
  refine and_congr_right fun _ => ⟨fun h other item hitem hne hvalid hpos hlt => ?_,
    fun h other _ hne item hitem hlistable => ?_⟩
  · exact h other (List.getElem?_eq_some_iff.mp hitem).1 hne item hitem
      (listable_iff.mpr ⟨hvalid, hpos, hlt⟩)
  · obtain ⟨hvalid, hpos, hlt⟩ := listable_iff.mp hlistable
    exact h other item hitem hne hvalid hpos hlt

/-- What an image says of a segment. -/
structure Decoded {B : Type} (image : DecodedImage) (count : Nat) (segment : CoconutSegment)
    (admitted : Prop) (support : CoconutSegmentSupport B) : Prop where
  valid : support.valid = true ↔ admitted
  area : admitted →
    support.area = Nat.count (fun pixel => image.colour pixel = segment.id) count
  bounds : admitted → TightBounds image.width
    (fun pixel => pixel < count ∧ image.colour pixel = segment.id) support.bounds
  runs : admitted → segment.isthing = true →
    RunsOf (fun pixel => pixel < count ∧ image.colour pixel = segment.id) support.runs.view
  noRuns : ¬ (admitted ∧ segment.isthing = true) → support.runs.view = []
  noArea : ¬ admitted → support.area = 0 ∧ support.bounds = {}

/-- The first pixel of a colour that is not zero and that no segment of the record names. -/
def FirstUnlisted (segments : List CoconutSegment) (image : DecodedImage) (count unlisted : Nat) :
    Prop :=
  let named pixel := image.colour pixel = 0 ∨ ∃ segment ∈ segments, segment.valid = true ∧
    0 < segment.id ∧ segment.id < 2 ^ 24 ∧ segment.id = image.colour pixel
  (unlisted = 0 ∧ ∀ pixel < count, named pixel) ∨
    ∃ pixel < count, unlisted = image.colour pixel ∧ ¬ named pixel ∧
      ∀ before < pixel, named before

theorem listedBefore_iff {segments : List CoconutSegment} {id : Nat} :
    ListedBefore segments segments.length id ↔ ∃ segment ∈ segments, segment.valid = true ∧
      0 < segment.id ∧ segment.id < 2 ^ 24 ∧ segment.id = id := by
  constructor
  · intro ⟨index, _, segment, hsegment, hlistable, hid⟩
    obtain ⟨hvalid, hpos, hlt⟩ := listable_iff.mp hlistable
    exact ⟨segment, List.mem_of_getElem? hsegment, hvalid, hpos, hlt, hid⟩
  · intro ⟨segment, hmem, hvalid, hpos, hlt, hid⟩
    obtain ⟨index, hindex, hsegment⟩ := List.mem_iff_getElem.mp hmem
    exact ⟨index, hindex, segment, List.getElem?_eq_some_iff.mpr ⟨hindex, hsegment⟩,
      listable_iff.mpr ⟨hvalid, hpos, hlt⟩, hid⟩

/-- An admitted image is scanned to its end. -/
theorem decode_scanned (workspace : CoconutNativeWorkspace B) (limits : CoconutImportLimits)
    (segments : List CoconutSegment) (image : DecodedImage)
    (hwidth : 0 < image.width) (hheight : 0 < image.height)
    (hdimension : image.width ≤ limits.maxDimension ∧ image.height ≤ limits.maxDimension)
    (hpixels : image.width * image.height ≤ limits.maxPixels)
    (hcount : image.width * image.height < 2 ^ 32) (hsegments : segments.length ≤ limits.maxSegments) :
    ∃ table after, Table segments segments.length table ∧ segments.length < table.length ∧
      workspace.decode limits segments image image.width image.height = .ok after ∧
      Scanned segments image table (image.width * image.height) after := by
  obtain ⟨listed, hlisted, hroom, hall⟩ := workspace.listed_start segments
  have hstart : Scanned segments image listed.segments 0 listed := by
    refine ⟨rfl, fun index segment hsegment => ?_, .inl ⟨hall.unlisted, nofun⟩⟩
    obtain ⟨valid, hsupport, hvalid⟩ :=
      hall.supports index (List.getElem?_eq_some_iff.mp hsegment).1 segment hsegment
    exact ⟨fresh B valid, hsupport, counted_fresh hvalid⟩
  have hfits : image.width < 2 ^ 32 := (Nat.le_mul_of_pos_right _ hheight).trans_lt hcount
  obtain ⟨after, hscan, hscanned⟩ := CoconutNativeWorkspace.scan_spec hall.table hroom hstart
    (Nat.zero_le _) (Nat.le_of_eq (Nat.zero_add _).symm) hwidth hfits hcount
  refine ⟨listed.segments, after, hall.table, hroom, ?_, hscanned⟩
  rw [CoconutNativeWorkspace.decode, if_neg (by omega)]
  show (CoconutNativeWorkspace.listSegments _ 0 segments >>= _) = _
  rw [hlisted]
  exact hscan

/-- An admitted image is decoded to the pixels of each segment, whatever was there before. -/
theorem decode_segments (workspace : CoconutNativeWorkspace B) (limits : CoconutImportLimits)
    (segments : List CoconutSegment) (image : DecodedImage)
    (hwidth : 0 < image.width) (hheight : 0 < image.height)
    (hdimension : image.width ≤ limits.maxDimension ∧ image.height ≤ limits.maxDimension)
    (hpixels : image.width * image.height ≤ limits.maxPixels)
    (hcount : image.width * image.height < 2 ^ 32) (hsegments : segments.length ≤ limits.maxSegments) :
    ∃ after, workspace.decode limits segments image image.width image.height = .ok after ∧
      (∀ index segment, segments[index]? = some segment →
        ∃ support, after.support[index]? = some support ∧
          Decoded image (image.width * image.height) segment (ValidSegment segments index segment)
            support) ∧
      FirstUnlisted segments image (image.width * image.height) after.unlistedSegment ∧
      ∀ id ≠ 0, ∃ slot, after.segmentEntry id = some slot := by
  obtain ⟨table, after, htable, hroom, hdecode, hscanned⟩ := decode_scanned workspace limits segments
    image hwidth hheight hdimension hpixels hcount hsegments
  refine ⟨after, hdecode, fun index segment hsegment => ?_, ?_, fun id hid => ?_⟩
  · obtain ⟨support, hsupport, hcounted⟩ := hscanned.supports index segment hsegment
    have hview : support.runs.view = support.runs.owned := by
      rw [CoconutSupportRuns.view, hcounted.forgotten.1]
      rfl
    have hcolour : image.colour = image.idAt := funext fun pixel => (idAt_eq_colour image pixel).symm
    refine ⟨support, hsupport, ?_⟩
    rw [← alone_iff_valid]
    exact {
      valid := hcounted.valid
      area := by simpa only [hcolour] using hcounted.area
      bounds := by simpa only [hcolour] using hcounted.bounds
      runs := by simpa only [hcolour, hview] using hcounted.runs
      noRuns := by simpa only [hview] using hcounted.noRuns
      noArea := hcounted.nothing }
  · simp only [FirstUnlisted, ← idAt_eq_colour, ← listedBefore_iff]
    exact hscanned.unlisted
  · obtain ⟨slot, -, hslot, -⟩ := (@Table.segmentEntry_spec _ _ _ _ after)
      (hscanned.segments ▸ htable) (hscanned.segments ▸ hroom) hid
    exact ⟨slot, hslot⟩

/-- Four pixels of the colour one. -/
def plainImage : DecodedImage := ⟨2, 2, fun position => if position % 3 = 0 then 1 else 0⟩

/-- A workspace that another image left an unlisted colour in. -/
def usedWorkspace : CoconutNativeWorkspace Unit := ⟨[], [CoconutSegmentSupport.create Unit], 7⟩

theorem decode_segments_plain : ∃ after, usedWorkspace.decode ⟨100, 10, 16⟩
      [⟨1, true, true⟩, ⟨2, true, true⟩] plainImage 2 2 = .ok after ∧
    FirstUnlisted [⟨1, true, true⟩, ⟨2, true, true⟩] plainImage 4 after.unlistedSegment := by
  obtain ⟨after, hdecode, -, hunlisted, -⟩ := decode_segments usedWorkspace ⟨100, 10, 16⟩
    [⟨1, true, true⟩, ⟨2, true, true⟩] plainImage (by decide) (by decide) (by decide) (by decide)
    (by decide) (by decide)
  exact ⟨after, hdecode, hunlisted⟩

end Mmltk.Coconut
