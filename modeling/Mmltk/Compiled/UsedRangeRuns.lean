import Mmltk.Compiled.UsedRangeSteps

namespace Mmltk.Compiled

open Mmltk.Foundation

/-! Runs of a range cursor: its ranges, one after the other, are the copies of its reads. -/

/-- A range of at most `limit` bytes, and not of none. -/
structure UsedRange.Within (limit : Nat) (range : UsedRange) : Prop where
  pos : 0 < range.bytes
  le : range.bytes ≤ limit
  representable : range.destinationOffset < 2 ^ 64

namespace UsedRangeCursor

variable {dataset : CompiledDataset} {labelled : Bool} {cursor : UsedRangeCursor}
variable {read : CompiledImageRead} {limit : Nat}

theorem piece_spec (h : Sound dataset labelled cursor)
    (hread : cursor.reads[cursor.image]? = some read)
    (hoffset : cursor.offset <
      (dataset.sectionCopies cursor.labelPitch cursor.readSection read).length) :
    ∃ size source destination, piece dataset cursor read = .ok (size, source, destination) ∧
      dataset.sectionCopies cursor.labelPitch cursor.readSection read =
        copies (2 ^ 64) source destination size := by
  have hmember := List.mem_of_getElem? hread
  obtain ⟨entry, hentry, hvalue⟩ := imageEntry_eq h.readable hmember
  obtain ⟨slots, stride, capacity, catalog, hcomputed⟩ := h.readable.computed
  have hslot := slot_lt h.readable hmember
  cases hsection : cursor.readSection with
  | labels =>
      rw [hsection, length_labels hentry] at hoffset
      have hfits := h.fits read hmember entry hentry (Nat.ne_zero_of_lt hoffset)
      refine ⟨entry.labelBytes,
        dataset.layout.labelAt (read.index / compiledBlockSlots) (read.index % compiledBlockSlots),
        read.destinationOffset / dataset.layout.imageStride * cursor.labelPitch, ?_, ?_⟩
      · rw [piece, hsection]
        simp only [hvalue, hcomputed.labelOffset_eq hslot, checkedMultiply_of_lt hfits]
        rfl
      · rw [CompiledDataset.sectionCopies, hentry]
        rfl
  | pixels =>
      refine ⟨dataset.layout.imageStride, _, _, ?_, rfl⟩
      rw [piece, hsection]
      simp only [hcomputed.pixelOffset_eq hslot]
      rfl

/-- A range that goes on where the next piece is takes its bytes. -/
theorem copied_extend {range : UsedRange} {source destination bytes : Nat}
    (h : breaks cursor range source (wrapped destination) = false) :
    UsedRange.copied cursor.advice { range with bytes := range.bytes + bytes } =
      range.copied cursor.advice ++
        tracked cursor.advice cursor.readSection (copies (2 ^ 64) source destination bytes) := by
  have ⟨⟨hsection, hsource⟩, hdestination⟩ : (range.readSection = cursor.readSection ∧
      range.sourceOffset + range.bytes = source) ∧ (cursor.advice = false →
        wrapped (range.destinationOffset + range.bytes) = wrapped destination) := by
    simpa [breaks] using h
  rw [UsedRange.copied, UsedRange.copied, copies_add, tracked_append, hsection, hsource]
  refine congrArg _ ?_
  cases hadvice : cursor.advice with
  | false => rw [copies_congr (hdestination hadvice)]
  | true =>
      simp only [tracked, copies, List.map_map]
      exact List.map_congr_left fun _ _ => rfl

/-- What a cursor passes when it takes bytes of the image it is in. -/
theorem passed_advance {size source destination bytes : Nat}
    (hactive : cursor.active = true) (hread : cursor.reads[cursor.image]? = some read)
    (hcopies : dataset.sectionCopies cursor.labelPitch cursor.readSection read =
      copies (2 ^ 64) source destination size)
    (hbytes : cursor.offset + bytes ≤ size) :
    passed dataset labelled
        (if cursor.offset + bytes = size then { cursor with image := cursor.image + 1, offset := 0 }
        else { cursor with offset := cursor.offset + bytes }) =
      cursor.passed dataset labelled ++ tracked cursor.advice cursor.readSection
        (copies (2 ^ 64) (source + cursor.offset) (destination + cursor.offset) bytes) := by
  have htaken := (@prefixCopied_add dataset _ cursor.readSection _ cursor.offset) bytes hread
  rw [hcopies, drop_copies (by omega), take_copies (by omega)] at htaken
  rw [passed.eq_def dataset labelled cursor, if_pos hactive, List.append_assoc, ← htaken]
  split
  · next hend =>
      rw [prefixCopied_succ hread (by rw [hcopies, length_copies, hend]), passed, if_pos hactive]
      rfl
  · rw [passed, if_pos hactive]
    rfl

/-- `more` is what the cursor passes on its way. -/
structure Passes (dataset : CompiledDataset) (labelled : Bool) (cursor other : UsedRangeCursor)
    (more : List (ReadSection × Nat × Nat)) : Prop where
  same : Same cursor other
  valid : Valid dataset labelled other
  still : other.active = true → cursor.active = true
  agrees : Agrees cursor.advice (other.passed dataset labelled)
    (cursor.passed dataset labelled ++ more)

namespace Passes

variable {other third : UsedRangeCursor} {first second : List (ReadSection × Nat × Nat)}

theorem refl (h : Valid dataset labelled cursor) : Passes dataset labelled cursor cursor [] :=
  ⟨⟨rfl, rfl, rfl⟩, h, id, .of_eq (List.append_nil _).symm⟩

theorem trans (h : Passes dataset labelled cursor other first)
    (hnext : Passes dataset labelled other third second) :
    Passes dataset labelled cursor third (first ++ second) := by
  refine ⟨h.same.trans hnext.same, hnext.valid, h.still ∘ hnext.still, ?_⟩
  have hagrees := hnext.agrees
  rw [h.same.advice] at hagrees
  rw [← List.append_assoc]
  exact hagrees.trans (h.agrees.append second)

theorem all_eq (h : Passes dataset labelled cursor other first) :
    other.all dataset labelled = cursor.all dataset labelled := by
  unfold all earlier sectionCopied imageCopied
  rw [h.same.reads, h.same.labelPitch, h.same.advice]

end Passes

/-- The cursor goes on by bytes of the image it is in, and from there to the next byte. -/
theorem take_spec {size source destination bytes : Nat} (h : Valid dataset labelled cursor)
    (hactive : cursor.active = true) (hread : cursor.reads[cursor.image]? = some read)
    (hcopies : dataset.sectionCopies cursor.labelPitch cursor.readSection read =
      copies (2 ^ 64) source destination size)
    (hbytes : cursor.offset + bytes ≤ size) :
    ∃ other, normalize dataset (if cursor.offset + bytes = size then
        { cursor with image := cursor.image + 1, offset := 0 }
        else { cursor with offset := cursor.offset + bytes }) = .ok other ∧
      Passes dataset labelled cursor other (tracked cursor.advice cursor.readSection
        (copies (2 ^ 64) (source + cursor.offset) (destination + cursor.offset) bytes)) := by
  have hpassed := (@passed_advance _ labelled) hactive hread hcopies hbytes
  have hlt := (List.getElem?_eq_some_iff.mp hread).1
  split at hpassed <;> rename_i hend
  · rw [if_pos hend]
    obtain ⟨other, hnormalize, hsame, hvalid, hagrees⟩ := (@normalize_spec _ labelled { cursor with image := cursor.image + 1, offset := 0 })
      ⟨h.readable, h.fits, h.labelled⟩ fun _ => .inl ⟨rfl, hlt⟩
    exact ⟨other, hnormalize, ⟨hsame.reads, hsame.labelPitch, hsame.advice⟩, hvalid,
      fun _ => hactive, hagrees.trans (.of_eq hpassed)⟩
  · rw [if_neg hend]
    obtain ⟨other, hnormalize, hsame, hvalid, hagrees⟩ := (@normalize_spec _ labelled { cursor with offset := cursor.offset + bytes })
      ⟨h.readable, h.fits, h.labelled⟩ fun _ => .inr ⟨read, hread, by
        simp only [hcopies, length_copies]
        omega⟩
    exact ⟨other, hnormalize, ⟨hsame.reads, hsame.labelPitch, hsame.advice⟩, hvalid,
      fun _ => hactive, hagrees.trans (.of_eq hpassed)⟩

/-- The copies of a range, if there is one. -/
def named (advice : Bool) (range : Option UsedRange) : List (ReadSection × Nat × Nat) :=
  range.elim [] (UsedRange.copied advice)

/-- The range of a round: what was held, and the bytes that are taken. -/
theorem extended_spec {held : Option UsedRange} {source destination bytes : Nat}
    (hbreaks : (held.any fun range =>
      breaks cursor range source (wrapped destination)) = false) :
    (extended cursor held source (wrapped destination) bytes).bytes =
        held.elim 0 UsedRange.bytes + bytes ∧
      (extended cursor held source (wrapped destination) bytes).copied cursor.advice =
        named cursor.advice held ++
          tracked cursor.advice cursor.readSection (copies (2 ^ 64) source destination bytes) := by
  cases held with
  | none =>
      exact ⟨(Nat.zero_add _).symm,
        congrArg (tracked _ _) (copies_congr (Nat.mod_mod destination (2 ^ 64)))⟩
  | some range => exact ⟨rfl, copied_extend hbreaks⟩

/-- The bytes a round takes. -/
def roundBytes (limit size : Nat) (cursor : UsedRangeCursor) (held : Option UsedRange) : Nat :=
  min (size - cursor.offset) (limit - held.elim 0 UsedRange.bytes)

theorem nextLoop_round {fuel size source destination : Nat} {held : Option UsedRange}
    {other : UsedRangeCursor} (hactive : cursor.active = true)
    (hread : cursor.reads[cursor.image]? = some read)
    (hpiece : piece dataset cursor read = .ok (size, source, destination))
    (hbreaks : (held.any fun range => breaks cursor range (source + cursor.offset)
      (wrapped (destination + cursor.offset))) = false)
    (hnormalize : normalize dataset (if cursor.offset + roundBytes limit size cursor held = size then
      { cursor with image := cursor.image + 1, offset := 0 }
      else { cursor with offset := cursor.offset + roundBytes limit size cursor held }) = .ok other) :
    nextLoop dataset limit (fuel + 1) held cursor =
      let range := extended cursor held (source + cursor.offset)
        (wrapped (destination + cursor.offset)) (roundBytes limit size cursor held)
      if range.bytes = limit then .ok (some range, other)
      else nextLoop dataset limit fuel (some range) other := by
  rw [nextLoop]
  simp only [hread, hpiece]
  rw [if_neg (by rw [hactive]; nofun)]
  refine (if_neg (by rw [hbreaks]; nofun)).trans ?_
  exact congrArg (· >>= _) hnormalize

/-- The rounds of `next`: each takes a byte of the limit that is left. -/
theorem nextLoop_spec {fuel : Nat} {held : Option UsedRange} (h : Valid dataset labelled cursor)
    (hheld : ∀ range ∈ held, range.Within limit ∧ range.bytes ≠ limit) (hlimit : 0 < limit)
    (hfuel : limit < fuel + held.elim 0 UsedRange.bytes) :
    ∃ result other more, nextLoop dataset limit fuel held cursor = .ok (result, other) ∧
      Passes dataset labelled cursor other more ∧
      named cursor.advice result = named cursor.advice held ++ more ∧
      (∀ range ∈ result, range.Within limit) ∧
      (cursor.active = true ∨ held.isSome → result.isSome) := by
  induction fuel generalizing held cursor with
  | zero =>
      cases held with
      | none => exact absurd hfuel (Nat.not_lt_zero _)
      | some range =>
          have hle := (hheld range rfl).1.le
          rw [Option.elim_some] at hfuel
          omega
  | succ fuel ih =>
      have hholds : ∀ range ∈ held, range.Within limit :=
        fun range hrange => (hheld range hrange).1
      cases hactive : cursor.active with
      | false =>
          rw [nextLoop]
          refine ⟨held, cursor, [], ?_, .refl h, (List.append_nil _).symm, hholds, ?_⟩
          · split
            · rfl
            · exact if_pos (by rw [hactive]; rfl)
          · exact fun hsome => hsome.resolve_left nofun
      | true =>
          obtain ⟨read, hread, hoffset⟩ := h.inside hactive
          obtain ⟨size, source, destination, hpiece, hcopies⟩ :=
            piece_spec h.toSound hread hoffset
          rw [hcopies, length_copies] at hoffset
          cases hbreaks : held.any fun range => breaks cursor range (source + cursor.offset)
              (wrapped (destination + cursor.offset)) with
          | true =>
              have hsome : held.isSome := by
                cases held with
                | none => contradiction
                | some range => rfl
              refine ⟨held, cursor, [], ?_, .refl h, (List.append_nil _).symm, hholds, ?_⟩
              · rw [nextLoop]
                simp only [hread, hpiece]
                rw [if_neg (by rw [hactive]; nofun)]
                exact if_pos hbreaks
              · exact fun _ => hsome
          | false =>
              have hleft : held.elim 0 UsedRange.bytes < limit := by
                cases held with
                | none => exact hlimit
                | some range => exact lt_of_le_of_ne (hheld range rfl).1.le (hheld range rfl).2
              have htaken : 0 < roundBytes limit size cursor held ∧
                  cursor.offset + roundBytes limit size cursor held ≤ size ∧
                  held.elim 0 UsedRange.bytes + roundBytes limit size cursor held ≤ limit := by
                unfold roundBytes
                omega
              obtain ⟨hbytes, hcopied⟩ :=
                (@extended_spec _ _ _ _ (roundBytes limit size cursor held)) hbreaks
              obtain ⟨other, hnormalize, hpasses⟩ := take_spec h hactive hread hcopies htaken.2.1
              rw [nextLoop_round hactive hread hpiece hbreaks hnormalize]
              have hwithin : (extended cursor held (source + cursor.offset)
                  (wrapped (destination + cursor.offset))
                  (roundBytes limit size cursor held)).Within limit := by
                refine ⟨by omega, by omega, ?_⟩
                cases held with
                | none => exact Nat.mod_lt _ (by decide)
                | some range => exact (hheld range rfl).1.representable
              simp only
              split
              · next hfull =>
                  refine ⟨_, other, _, rfl, hpasses, hcopied, ?_, fun _ => rfl⟩
                  rintro range ⟨⟩
                  exact hwithin
              · next hmore =>
                  obtain ⟨result, third, more, hnext, hrest, hnamed, hresult, hsome⟩ :=
                    @ih _ (some (extended cursor held (source + cursor.offset)
                      (wrapped (destination + cursor.offset)) (roundBytes limit size cursor held)))
                      hpasses.valid
                      (by rintro range ⟨⟩; exact ⟨hwithin, hmore⟩)
                      (by rw [Option.elim_some]; omega)
                  refine ⟨result, third, _, hnext, hpasses.trans hrest, ?_, hresult, fun _ => ?_⟩
                  · rw [hpasses.same.advice] at hnamed
                    rw [hnamed, ← List.append_assoc, ← hcopied]
                    rfl
                  · exact hsome (.inr rfl)

/-- A cursor that is active gives a range; one that is not gives none. -/
theorem next_spec (h : Valid dataset labelled cursor) (hlimit : 0 < limit)
    (hle : limit ≤ readChunkBytes) :
    ∃ result other, next dataset limit cursor = .ok (result, other) ∧
      Passes dataset labelled cursor other (named cursor.advice result) ∧
      (∀ range ∈ result, range.Within limit) ∧
      (result.isSome ↔ cursor.active = true) := by
  have hnext : next dataset limit cursor = nextLoop dataset limit (limit + 1) none cursor :=
    if_neg (by omega)
  rw [hnext]
  cases hactive : cursor.active with
  | true =>
      obtain ⟨result, other, more, hvalue, hpasses, hnamed, hresult, hsome⟩ :=
        (@nextLoop_spec _ _ _ _ (limit + 1) none) h nofun hlimit (Nat.lt_succ_self limit)
      rw [show named cursor.advice none = [] from rfl, List.nil_append] at hnamed
      exact ⟨result, other, hvalue, hnamed ▸ hpasses, hresult,
        iff_of_true (hsome (.inl hactive)) rfl⟩
  | false =>
      refine ⟨none, cursor, ?_, .refl h, nofun, iff_of_false nofun nofun⟩
      rw [nextLoop]
      split
      · rfl
      · exact if_pos (by rw [hactive]; rfl)

/-- The limits of `next`. -/
def Limits (limits : List Nat) : Prop := ∀ limit ∈ limits, 0 < limit ∧ limit ≤ readChunkBytes

/-- The copies of ranges one after the other. -/
def namedAll (advice : Bool) (ranges : List (Option UsedRange)) : List (ReadSection × Nat × Nat) :=
  ranges.flatMap (named advice)

theorem drain_spec {limits : List Nat} (h : Valid dataset labelled cursor)
    (hlimits : Limits limits) :
    ∃ ranges other, drain dataset cursor limits = .ok (ranges, other) ∧
      Passes dataset labelled cursor other (namedAll cursor.advice ranges) ∧
      List.Forall₂ (fun limit range => ∀ held ∈ range, UsedRange.Within limit held)
        limits ranges ∧
      (other.active = true → ∀ range ∈ ranges, range.isSome) := by
  induction limits generalizing cursor with
  | nil => exact ⟨[], cursor, rfl, .refl h, .nil, fun _ => nofun⟩
  | cons limit limits ih =>
      have hlimit := List.forall_mem_cons.mp hlimits
      obtain ⟨result, other, hnext, hpasses, hresult, hsome⟩ :=
        next_spec h hlimit.1.1 hlimit.1.2
      obtain ⟨ranges, third, hdrain, hrest, hall, hranges⟩ := ih hpasses.valid hlimit.2
      rw [hpasses.same.advice] at hrest
      refine ⟨result :: ranges, third, ?_, hpasses.trans hrest, .cons hresult hall, ?_⟩
      · rw [drain, hnext]
        show (drain dataset other limits >>= _) = _
        rw [hdrain]
        rfl
      · intro hactive
        have hbefore := hpasses.still (hrest.still hactive)
        exact List.forall_mem_cons.mpr ⟨hsome.mpr hbefore, hranges hactive⟩

end UsedRangeCursor

end Mmltk.Compiled
