import Mmltk.Compiled.Placement
import Mmltk.Compiled.UsedRanges

namespace Mmltk.Compiled

open Mmltk.Foundation

/-! One step of a range cursor: what it has passed grows by what its range names. -/

/-- The file is as long as its layout, and the reads are of eligible slots. -/
structure CompiledDataset.Readable (dataset : CompiledDataset) (reads : List CompiledImageRead) :
    Prop where
  computed : ∃ slots stride capacity catalog,
    dataset.layout.Computed slots stride capacity catalog
  resident : dataset.imageEntries.length = dataset.layout.numSlots
  mapped : dataset.layout.totalSize ≤ dataset.mappingSize
  eligible : ∀ read ∈ reads, dataset.eligible read.index = true

/-- The label destinations of the images that have labels can be represented. -/
def CompiledDataset.LabelsFit (dataset : CompiledDataset) (reads : List CompiledImageRead)
    (labelPitch : Nat) : Prop :=
  ∀ read ∈ reads, ∀ entry, dataset.imageEntries[read.index]? = some entry → entry.labelBytes ≠ 0 →
    read.destinationOffset / dataset.layout.imageStride * labelPitch < 2 ^ 64

/-- Copies of a section; advice does not look at destinations. -/
def tracked (advice : Bool) (readSection : ReadSection) (pairs : List (Nat × Nat)) :
    List (ReadSection × Nat × Nat) :=
  pairs.map fun pair => (readSection, pair.1, if advice then 0 else pair.2)

@[simp] theorem tracked_append (advice : Bool) (readSection : ReadSection)
    (first second : List (Nat × Nat)) : tracked advice readSection (first ++ second) =
      tracked advice readSection first ++ tracked advice readSection second :=
  List.map_append

def UsedRange.copied (advice : Bool) (range : UsedRange) : List (ReadSection × Nat × Nat) :=
  tracked advice range.readSection
    (copies (2 ^ 64) range.sourceOffset range.destinationOffset range.bytes)

/-- Advice may leave out what it has named before. -/
structure Agrees {α : Type} (advice : Bool) (whole part : List α) : Prop where
  length : part.length ≤ whole.length
  items : ∀ item, item ∈ whole ↔ item ∈ part
  exact : advice = false → whole = part

namespace Agrees

variable {advice : Bool} {α : Type} {first second third : List α}

theorem refl (list : List α) : Agrees advice list list :=
  ⟨Nat.le_refl _, fun _ => Iff.rfl, fun _ => rfl⟩

theorem of_eq (h : first = second) : Agrees advice first second := h ▸ refl first

theorem trans (h : Agrees advice first second) (hnext : Agrees advice second third) :
    Agrees advice first third :=
  ⟨Nat.le_trans hnext.length h.length, fun item => (h.items item).trans (hnext.items item),
    fun hadvice => (h.exact hadvice).trans (hnext.exact hadvice)⟩

theorem append (h : Agrees advice first second) (list : List α) :
    Agrees advice (first ++ list) (second ++ list) := by
  refine ⟨?_, fun item => ?_, fun hadvice => congrArg (· ++ list) (h.exact hadvice)⟩
  · rw [List.length_append, List.length_append]
    exact Nat.add_le_add_right h.length _
  · rw [List.mem_append, List.mem_append, h.items item]

theorem prepend (h : Agrees advice first second) (list : List α) :
    Agrees advice (list ++ first) (list ++ second) := by
  refine ⟨?_, fun item => ?_, fun hadvice => congrArg (list ++ ·) (h.exact hadvice)⟩
  · rw [List.length_append, List.length_append]
    exact Nat.add_le_add_left h.length _
  · rw [List.mem_append, List.mem_append, h.items item]

/-- What is left out is named already. -/
theorem repeated {list : List α} (hadvice : advice = true) (h : ∀ item ∈ list, item ∈ first) :
    Agrees advice (first ++ list) first := by
  refine ⟨?_, fun item => ?_, fun himpossible => ?_⟩
  · rw [List.length_append]
    exact Nat.le_add_right _ _
  · rw [List.mem_append, or_iff_left_iff_imp]
    exact h item
  · rw [hadvice] at himpossible
    contradiction

end Agrees

namespace CompiledDataset

variable (dataset : CompiledDataset)

/-- Where a section of a read is, where it goes, and how long it is. -/
def sectionCopies (labelPitch : Nat) (readSection : ReadSection) (read : CompiledImageRead) :
    List (Nat × Nat) :=
  let block := read.index / compiledBlockSlots
  let within := read.index % compiledBlockSlots
  match readSection with
  | .labels =>
      copies (2 ^ 64) (dataset.layout.labelAt block within)
        (read.destinationOffset / dataset.layout.imageStride * labelPitch)
        ((dataset.imageEntries[read.index]?.map ImageEntry.labelBytes).getD 0)
  | .pixels =>
      copies (2 ^ 64) (dataset.layout.pixelAt block within) read.destinationOffset
        dataset.layout.imageStride

end CompiledDataset

namespace UsedRangeCursor

variable (dataset : CompiledDataset)

def imageCopied (cursor : UsedRangeCursor) (readSection : ReadSection) (read : CompiledImageRead) :
    List (ReadSection × Nat × Nat) :=
  tracked cursor.advice readSection (dataset.sectionCopies cursor.labelPitch readSection read)

/-- All of a section. -/
def sectionCopied (cursor : UsedRangeCursor) (readSection : ReadSection) :
    List (ReadSection × Nat × Nat) :=
  cursor.reads.flatMap (cursor.imageCopied dataset readSection)

/-- A section up to a byte of an image. -/
def prefixCopied (cursor : UsedRangeCursor) (readSection : ReadSection) (image offset : Nat) :
    List (ReadSection × Nat × Nat) :=
  (cursor.reads.take image).flatMap (cursor.imageCopied dataset readSection) ++
    (cursor.reads[image]?.elim [] (cursor.imageCopied dataset readSection)).take offset

/-- The labels before the pixels, if the cursor started with labels. -/
def earlier (labelled : Bool) (cursor : UsedRangeCursor) :
    ReadSection → List (ReadSection × Nat × Nat)
  | .labels => []
  | .pixels => if labelled then cursor.sectionCopied dataset .labels else []

/-- All that a cursor is to pass. -/
def all (labelled : Bool) (cursor : UsedRangeCursor) : List (ReadSection × Nat × Nat) :=
  cursor.earlier dataset labelled .pixels ++ cursor.sectionCopied dataset .pixels

def passed (labelled : Bool) (cursor : UsedRangeCursor) : List (ReadSection × Nat × Nat) :=
  if cursor.active then
    cursor.earlier dataset labelled cursor.readSection ++
      cursor.prefixCopied dataset cursor.readSection cursor.image cursor.offset
  else cursor.all dataset labelled

/-- The cursor of some reads. -/
structure Sound (labelled : Bool) (cursor : UsedRangeCursor) : Prop where
  readable : dataset.Readable cursor.reads
  fits : dataset.LabelsFit cursor.reads cursor.labelPitch
  labelled : cursor.readSection = .labels → labelled = true

/-- An active cursor is in the middle of an image. -/
structure Valid (labelled : Bool) (cursor : UsedRangeCursor) : Prop
    extends Sound dataset labelled cursor where
  inside : cursor.active = true → ∃ read, cursor.reads[cursor.image]? = some read ∧
    cursor.offset < (dataset.sectionCopies cursor.labelPitch cursor.readSection read).length

/-- Only the place of a cursor changes. -/
structure Same (cursor other : UsedRangeCursor) : Prop where
  reads : other.reads = cursor.reads
  labelPitch : other.labelPitch = cursor.labelPitch
  advice : other.advice = cursor.advice

theorem Same.trans {cursor other third : UsedRangeCursor} (h : Same cursor other)
    (hnext : Same other third) : Same cursor third :=
  ⟨hnext.reads.trans h.reads, hnext.labelPitch.trans h.labelPitch, hnext.advice.trans h.advice⟩

section Prefixes

variable {dataset} {cursor : UsedRangeCursor} {readSection : ReadSection} {image offset : Nat}
variable {read : CompiledImageRead}

theorem length_imageCopied : (cursor.imageCopied dataset readSection read).length =
    (dataset.sectionCopies cursor.labelPitch readSection read).length := by
  rw [imageCopied, tracked, List.length_map]

theorem prefixCopied_length : cursor.prefixCopied dataset readSection cursor.reads.length 0 =
    cursor.sectionCopied dataset readSection := by
  rw [prefixCopied, List.take_length, List.take_zero, List.append_nil, sectionCopied]

theorem prefixCopied_zero : cursor.prefixCopied dataset readSection 0 0 = [] := by
  rw [prefixCopied, List.take_zero, List.flatMap_nil, List.take_zero, List.nil_append]

/-- The end of one image is the beginning of the next. -/
theorem prefixCopied_succ (hread : cursor.reads[image]? = some read)
    (hoffset : offset = (dataset.sectionCopies cursor.labelPitch readSection read).length) :
    cursor.prefixCopied dataset readSection image offset =
      cursor.prefixCopied dataset readSection (image + 1) 0 := by
  rw [prefixCopied, prefixCopied, hread, Option.elim_some, hoffset, ← length_imageCopied,
    List.take_length, List.take_zero, List.append_nil, List.take_add_one, hread,
    Option.toList_some, List.flatMap_append, List.flatMap_singleton]

/-- The prefix of a section grows by the bytes that are taken. -/
theorem prefixCopied_add (count : Nat) (hread : cursor.reads[image]? = some read) :
    cursor.prefixCopied dataset readSection image (offset + count) =
      cursor.prefixCopied dataset readSection image offset ++
        tracked cursor.advice readSection
          (((dataset.sectionCopies cursor.labelPitch readSection read).drop offset).take count) := by
  rw [prefixCopied, prefixCopied, hread, Option.elim_some, List.take_add, List.append_assoc,
    imageCopied]
  simp only [tracked, List.map_take, List.map_drop]

end Prefixes

/-! Skipped images add nothing to what is passed. -/

/-- The byte at `offset` of the image is one of its section. -/
def Inside (cursor : UsedRangeCursor) : Prop :=
  ∃ read, cursor.reads[cursor.image]? = some read ∧
    cursor.offset < (dataset.sectionCopies cursor.labelPitch cursor.readSection read).length

variable {dataset} {labelled : Bool} {cursor : UsedRangeCursor} {read : CompiledImageRead}

omit cursor in
theorem imageEntry_eq {reads : List CompiledImageRead} (h : dataset.Readable reads)
    (hread : read ∈ reads) : ∃ entry, dataset.imageEntries[read.index]? = some entry ∧
      dataset.imageEntry read.index = .ok entry := by
  have heligible := h.eligible read hread
  rw [CompiledDataset.eligible] at heligible
  rw [CompiledDataset.imageEntry]
  cases hentry : dataset.imageEntries[read.index]? with
  | none => simp [hentry] at heligible
  | some entry =>
      rw [hentry, Option.any_some] at heligible
      exact ⟨entry, rfl, if_pos heligible⟩

omit cursor in
theorem slot_lt {reads : List CompiledImageRead} (h : dataset.Readable reads)
    (hread : read ∈ reads) : read.index < dataset.layout.numSlots := by
  obtain ⟨entry, hentry, -⟩ := imageEntry_eq h hread
  rw [← h.resident]
  exact (List.getElem?_eq_some_iff.mp hentry).1

theorem length_labels {entry : ImageEntry}
    (hentry : dataset.imageEntries[read.index]? = some entry) :
    (dataset.sectionCopies cursor.labelPitch .labels read).length = entry.labelBytes := by
  rw [CompiledDataset.sectionCopies, length_copies, hentry]
  rfl

theorem length_pixels : (dataset.sectionCopies cursor.labelPitch .pixels read).length =
    dataset.layout.imageStride := by
  rw [CompiledDataset.sectionCopies, length_copies]

theorem stride_pos {reads : List CompiledImageRead} (h : dataset.Readable reads) :
    0 < dataset.layout.imageStride := by
  obtain ⟨slots, stride, capacity, catalog, hcomputed⟩ := h.computed
  rw [hcomputed.stride_eq]
  exact hcomputed.stride_pos

/-- In advice the same image is the same copies. -/
theorem imageCopied_advice {previous : CompiledImageRead} (hadvice : cursor.advice = true)
    (hindex : previous.index = read.index) (readSection : ReadSection) :
    cursor.imageCopied dataset readSection previous = cursor.imageCopied dataset readSection read := by
  have hsource : ∀ source first second count,
      tracked true readSection (copies (2 ^ 64) source first count) =
        tracked true readSection (copies (2 ^ 64) source second count) := by
    intro source first second count
    simp only [tracked, copies, List.map_map]
    exact List.map_congr_left fun _ _ => rfl
  rw [imageCopied, imageCopied, hadvice]
  cases readSection with
  | labels =>
      simp only [CompiledDataset.sectionCopies, hindex]
      exact hsource _ _ _ _
  | pixels =>
      simp only [CompiledDataset.sectionCopies, hindex]
      exact hsource _ _ _ _

theorem skipsImage_spec (h : Sound dataset labelled cursor)
    (hread : cursor.reads[cursor.image]? = some read)
    (hstart : cursor.offset = 0 ∨ Inside dataset cursor) :
    (skipsImage dataset cursor read = .ok false ∧ Inside dataset cursor) ∨
      (skipsImage dataset cursor read = .ok true ∧ cursor.offset = 0 ∧
        Agrees cursor.advice
          (cursor.prefixCopied dataset cursor.readSection (cursor.image + 1) 0)
          (cursor.prefixCopied dataset cursor.readSection cursor.image 0)) := by
  obtain ⟨entry, hentry, hvalue⟩ := imageEntry_eq h.readable (List.mem_of_getElem? hread)
  have hfront : cursor.prefixCopied dataset cursor.readSection (cursor.image + 1) 0 =
      cursor.prefixCopied dataset cursor.readSection cursor.image 0 ++
        cursor.imageCopied dataset cursor.readSection read := by
    rw [← prefixCopied_succ hread rfl, ← Nat.zero_add (List.length _), prefixCopied_add _ hread,
      List.drop_zero, List.take_length, imageCopied]
  have hskips : skipsImage dataset cursor read =
      .ok ((cursor.readSection = .labels && entry.labelBytes = 0) ||
        (cursor.advice && cursor.offset = 0 && cursor.image ≠ 0 &&
          (cursor.reads[cursor.image - 1]?.any fun previous => previous.index = read.index))) := by
    rw [skipsImage, hvalue]
    rfl
  rw [hskips]
  cases hlabels : (cursor.readSection = .labels && entry.labelBytes = 0 : Bool) with
  | true =>
      have ⟨hsection, hbytes⟩ : cursor.readSection = .labels ∧ entry.labelBytes = 0 := by
        simpa using hlabels
      have hlength : (dataset.sectionCopies cursor.labelPitch cursor.readSection read).length = 0 := by
        rw [hsection, length_labels hentry, hbytes]
      refine .inr ⟨by simp, hstart.resolve_right ?_, Agrees.of_eq ?_⟩
      · intro ⟨other, hother, hlt⟩
        obtain rfl := Option.some.inj (hread.symm.trans hother)
        omega
      · rw [hfront, List.eq_nil_of_length_eq_zero (length_imageCopied.trans hlength),
          List.append_nil]
  | false =>
      cases hrepeat : (cursor.advice && cursor.offset = 0 && cursor.image ≠ 0 &&
          (cursor.reads[cursor.image - 1]?.any fun previous => previous.index = read.index) :
          Bool) with
      | true =>
          have ⟨⟨⟨hadvice, hoffset⟩, himage⟩, hprevious⟩ : ((cursor.advice = true ∧
              cursor.offset = 0) ∧ cursor.image ≠ 0) ∧
              (cursor.reads[cursor.image - 1]?.any fun previous =>
                previous.index = read.index) = true := by simpa using hrepeat
          refine .inr ⟨by simp, hoffset, ?_⟩
          rw [hfront]
          refine .repeated hadvice fun item hitem => ?_
          cases hbefore : cursor.reads[cursor.image - 1]? with
          | none => simp [hbefore] at hprevious
          | some previous =>
              have hindex : previous.index = read.index := by simpa [hbefore] using hprevious
              have hmember : previous ∈ cursor.reads.take cursor.image := by
                refine List.mem_of_getElem? (i := cursor.image - 1) ?_
                rw [List.getElem?_take_of_lt (by omega), hbefore]
              rw [prefixCopied, List.take_zero, List.append_nil]
              rw [← imageCopied_advice hadvice hindex] at hitem
              exact List.mem_flatMap.mpr ⟨previous, hmember, hitem⟩
      | false =>
          refine .inl ⟨by simp, hstart.elim (fun hoffset => ⟨read, hread, ?_⟩) id⟩
          rw [hoffset]
          cases hsection : cursor.readSection with
          | labels =>
              rw [length_labels hentry]
              have hne : entry.labelBytes ≠ 0 := by simpa [hsection] using hlabels
              exact Nat.pos_of_ne_zero hne
          | pixels =>
              rw [length_pixels]
              exact stride_pos h.readable

/-- The images that are left out add nothing to what is passed. -/
theorem skipImages_spec {remaining : Nat} (h : Sound dataset labelled cursor)
    (hremaining : cursor.image + remaining = cursor.reads.length)
    (hstart : cursor.offset = 0 ∨ Inside dataset cursor) :
    ∃ image ≤ cursor.reads.length,
      skipImages dataset remaining cursor = .ok { cursor with image } ∧
      (image = cursor.reads.length ∨ Inside dataset { cursor with image }) ∧
      (image = cursor.reads.length → cursor.offset = 0) ∧
      Agrees cursor.advice
        (cursor.prefixCopied dataset cursor.readSection image cursor.offset)
        (cursor.prefixCopied dataset cursor.readSection cursor.image cursor.offset) := by
  induction remaining generalizing cursor with
  | zero =>
      refine ⟨cursor.image, Nat.le_of_eq hremaining, rfl, .inl hremaining, fun _ => ?_, .refl _⟩
      refine hstart.resolve_right ?_
      intro ⟨read, hread, _⟩
      have hlt := (List.getElem?_eq_some_iff.mp hread).1
      omega
  | succ remaining ih =>
      have hlt : cursor.image < cursor.reads.length := by omega
      have hread := List.getElem?_eq_getElem hlt
      rw [skipImages, hread]
      rcases skipsImage_spec h hread hstart with ⟨hskips, hinside⟩ | ⟨hskips, hoffset, hagrees⟩
      · refine ⟨cursor.image, Nat.le_of_lt hlt, ?_, .inr hinside, fun himage => ?_, .refl _⟩
        · simp only [hskips]
          rfl
        · omega
      · obtain ⟨image, himage, hvalue, hplace, hzero, hfront⟩ :=
          @ih { cursor with image := cursor.image + 1 } ⟨h.readable, h.fits, h.labelled⟩
            (by simp only; omega) (.inl hoffset)
        refine ⟨image, himage, ?_, hplace, fun _ => hoffset, ?_⟩
        · simp only [hskips]
          exact hvalue
        · rw [hoffset] at hfront ⊢
          exact hfront.trans hagrees

/-- A cursor that is at a byte of an image, or has passed an image whole. -/
def Standing (dataset : CompiledDataset) (cursor : UsedRangeCursor) : Prop :=
  cursor.offset = 0 ∧ cursor.image ≤ cursor.reads.length ∨ Inside dataset cursor

theorem prefixCopied_skipped (h : Sound dataset labelled cursor) (hstart : Standing dataset cursor) :
    ∃ image ≤ cursor.reads.length,
      skipImages dataset (cursor.reads.length - cursor.image) cursor = .ok { cursor with image } ∧
      (image = cursor.reads.length ∧ cursor.offset = 0 ∨
        image ≠ cursor.reads.length ∧ Inside dataset { cursor with image }) ∧
      Agrees cursor.advice
        (cursor.prefixCopied dataset cursor.readSection image cursor.offset)
        (cursor.prefixCopied dataset cursor.readSection cursor.image cursor.offset) := by
  have hle : cursor.image ≤ cursor.reads.length := by
    rcases hstart with ⟨-, hle⟩ | ⟨read, hread, -⟩
    · exact hle
    · exact Nat.le_of_lt (List.getElem?_eq_some_iff.mp hread).1
  obtain ⟨image, himage, hskip, hplace, hzero, hfront⟩ :=
    skipImages_spec h (Nat.add_sub_of_le hle) (hstart.imp_left And.left)
  refine ⟨image, himage, hskip, ?_, hfront⟩
  rcases eq_or_ne image cursor.reads.length with heq | hne
  · exact .inl ⟨heq, hzero heq⟩
  · exact .inr ⟨hne, hplace.resolve_left hne⟩

/-- From the first pixel on: the cursor is at a byte, or everything is passed. -/
theorem skipPixels_spec (h : Sound dataset labelled cursor)
    (hsection : cursor.readSection = .pixels) (himage : cursor.image = 0)
    (hoffset : cursor.offset = 0) :
    ∃ image, skipImages dataset cursor.reads.length cursor = .ok { cursor with image } ∧
      Valid dataset labelled { cursor with image, active := image ≠ cursor.reads.length } ∧
      Agrees cursor.advice
        (passed dataset labelled { cursor with image, active := image ≠ cursor.reads.length })
        (cursor.earlier dataset labelled .pixels) := by
  obtain ⟨image, -, hskip, hplace, hfront⟩ :=
    prefixCopied_skipped h (.inl ⟨hoffset, himage ▸ Nat.zero_le _⟩)
  rw [himage, Nat.sub_zero] at hskip
  refine ⟨image, hskip, ⟨⟨h.readable, h.fits, h.labelled⟩, fun hstill => ?_⟩, ?_⟩
  · exact (hplace.resolve_left fun hend => of_decide_eq_true hstill hend.1).2
  · have hearlier := hfront.prepend (cursor.earlier dataset labelled .pixels)
    rw [hoffset, himage, prefixCopied_zero, List.append_nil, hsection] at hearlier
    rcases hplace with ⟨hend, -⟩ | ⟨hne, -⟩
    · rw [hend, prefixCopied_length] at hearlier
      rw [passed, if_neg (by simp [hend])]
      exact hearlier
    · rw [passed, if_pos (by simp [hne])]
      simp only [hsection, hoffset]
      exact hearlier

/-- Normalizing passes nothing new, and finds a byte if there is one. -/
theorem normalize_spec (h : Sound dataset labelled cursor)
    (hstart : cursor.active = true → Standing dataset cursor) :
    ∃ other, normalize dataset cursor = .ok other ∧ Same cursor other ∧
      Valid dataset labelled other ∧
      Agrees cursor.advice (other.passed dataset labelled) (cursor.passed dataset labelled) := by
  cases hactive : cursor.active with
  | false =>
      refine ⟨cursor, ?_, ⟨rfl, rfl, rfl⟩, ⟨h, fun himpossible => ?_⟩, .refl _⟩
      · rw [normalize, hactive]
        rfl
      · rw [hactive] at himpossible
        contradiction
  | true =>
      obtain ⟨image, himage, hskip, hplace, hfront⟩ := prefixCopied_skipped h (hstart hactive)
      have hearlier := hfront.prepend (cursor.earlier dataset labelled cursor.readSection)
      rw [passed, if_pos hactive]
      have hnormalize : normalize dataset cursor =
          if image ≠ cursor.reads.length then .ok { cursor with image }
          else if cursor.readSection = .pixels then .ok { cursor with image, active := false }
          else do
            let other ← skipImages dataset cursor.reads.length
              { cursor with readSection := .pixels, image := 0, offset := 0 }
            return { other with active := other.image ≠ other.reads.length } := by
        rw [normalize, if_neg (by simp [hactive]), hskip]
        rfl
      rcases hplace with ⟨hend, hoffset⟩ | ⟨hne, hinside⟩
      · rw [hoffset, hend, prefixCopied_length] at hearlier
        rw [if_neg (not_not_intro hend)] at hnormalize
        cases hsection : cursor.readSection with
        | pixels =>
            rw [hsection, if_pos rfl] at hnormalize
            rw [hsection] at hearlier
            refine ⟨_, hnormalize, ⟨rfl, rfl, rfl⟩, ⟨⟨h.readable, h.fits, ?_⟩, nofun⟩, ?_⟩
            · exact nofun
            · rw [passed, if_neg (by simp), hoffset]
              exact hearlier
        | labels =>
            obtain ⟨pixel, hpixels, hvalid, hagrees⟩ := (@skipPixels_spec _ labelled { cursor with readSection := .pixels, image := 0, offset := 0 })
              ⟨h.readable, h.fits, nofun⟩ rfl rfl rfl
            rw [hsection, if_neg (by decide), hpixels] at hnormalize
            rw [hsection] at hearlier
            refine ⟨_, hnormalize, ⟨rfl, rfl, rfl⟩, hvalid, hagrees.trans ?_⟩
            have hlabels : cursor.earlier dataset labelled .pixels =
                cursor.sectionCopied dataset .labels := if_pos (h.labelled hsection)
            rw [hoffset]
            exact .trans (.of_eq hlabels) hearlier
      · rw [if_pos hne] at hnormalize
        refine ⟨_, hnormalize, ⟨rfl, rfl, rfl⟩, ⟨⟨h.readable, h.fits, h.labelled⟩, ?_⟩, ?_⟩
        · exact fun _ => hinside
        · rw [passed, if_pos hactive]
          exact hearlier

end UsedRangeCursor

end Mmltk.Compiled
