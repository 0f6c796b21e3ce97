import Mmltk.Compiled.UsedRangeCopies

namespace Mmltk.Compiled

open Mmltk.Foundation

/-! A read of images writes what one copy for each read writes. -/

namespace CompiledDataset

open UsedRangeCursor

variable {dataset : CompiledDataset} {reads : List CompiledImageRead} {capacity : Nat}

/-- Moves that stay inside the file and the destination. -/
def Moves (dataset : CompiledDataset) (capacity : Nat)
    (moves : List (ReadSection × Nat × Nat)) : Prop :=
  ∀ move ∈ moves, move.2.1 < dataset.mappingSize ∧ move.2.2 < capacity

/-- What moves write. -/
def written (dataset : CompiledDataset) (memory : Nat → UInt8)
    (moves : List (ReadSection × Nat × Nat)) : Nat → UInt8 :=
  copyAll dataset.mapping memory (moves.map Prod.snd)

theorem written_append (memory : Nat → UInt8) (first second : List (ReadSection × Nat × Nat)) :
    dataset.written memory (first ++ second) =
      dataset.written (dataset.written memory first) second := by
  rw [written, List.map_append, copyAll_append, written, written]

theorem gatherRange_spec {limit : Nat} {range : UsedRange} (hcapacity : capacity < 2 ^ 64)
    (hrange : range.Within limit) (hmoves : dataset.Moves capacity range.moves)
    (memory : Nat → UInt8) :
    dataset.gatherRange capacity memory range = .ok (dataset.written memory range.moves) := by
  have hbyte : ∀ index < range.bytes, range.sourceOffset + index < dataset.mappingSize ∧
      (range.destinationOffset + index) % 2 ^ 64 < capacity := by
    intro index hindex
    refine hmoves (range.readSection, range.sourceOffset + index,
      (range.destinationOffset + index) % 2 ^ 64) ?_
    exact List.mem_map_of_mem (mem_copies.mpr ⟨index, hindex, rfl⟩)
  have hpos := hrange.pos
  have hsource := (hbyte (range.bytes - 1) (by omega)).1
  have hfirst : range.destinationOffset < capacity := by
    have hzero := (hbyte 0 hpos).2
    rwa [Nat.add_zero, Nat.mod_eq_of_lt hrange.representable] at hzero
  -- The destination goes up byte by byte, so it would meet the end of the destination.
  have hlast : range.destinationOffset + range.bytes ≤ capacity := by
    refine Nat.le_of_not_lt fun hlt => ?_
    have hmeet := (hbyte (capacity - range.destinationOffset) (by omega)).2
    rw [Nat.add_sub_of_le (Nat.le_of_lt hfirst), Nat.mod_eq_of_lt hcapacity] at hmeet
    exact Nat.lt_irrefl _ hmeet
  have hmap : range.moves.map Prod.snd =
      copies (2 ^ 64) range.sourceOffset range.destinationOffset range.bytes := by
    rw [UsedRange.moves, List.map_map]
    exact List.map_id _
  rw [gatherRange, if_neg (by omega), written, hmap, copyAll_copies _ _ (by omega)]

theorem named_moves (range : Option UsedRange) :
    named false range = range.elim [] UsedRange.moves := by
  cases range with
  | none => rfl
  | some range => rfl

/-- The moves that are left are what the loop writes. -/
theorem gatherLoop_spec {labelled : Bool} {fuel : Nat} {cursor : UsedRangeCursor}
    {rest : List (ReadSection × Nat × Nat)} (h : Valid dataset labelled cursor)
    (hadvice : cursor.advice = false)
    (hrest : cursor.passed dataset labelled ++ rest = cursor.all dataset labelled)
    (hcapacity : capacity < 2 ^ 64) (hmoves : dataset.Moves capacity rest)
    (hfuel : rest.length < fuel) (memory : Nat → UInt8) :
    dataset.gatherLoop capacity fuel cursor memory = .ok (dataset.written memory rest) := by
  induction fuel generalizing cursor rest memory with
  | zero => exact absurd hfuel (Nat.not_lt_zero _)
  | succ fuel ih =>
      obtain ⟨result, other, hnext, hpasses, hresult, hsome⟩ :=
        (@next_spec _ _ _ readChunkBytes) h (by decide) (Nat.le_refl _)
      rw [gatherLoop, hnext]
      cases result with
      | none =>
          obtain ⟨left, hleft, hempty⟩ := exists_rest h
          have hinactive : cursor.active = false := by
            cases hactive : cursor.active with
            | false => rfl
            | true => exact absurd (hsome.mpr hactive) nofun
          obtain rfl := List.append_cancel_left (hrest.trans hleft.symm)
          rw [hempty.mpr hinactive]
          rfl
      | some range =>
          have hwithin := hresult range rfl
          obtain ⟨left, hleft, -⟩ := exists_rest hpasses.valid
          have hsplit := hleft.trans (hpasses.all_eq.trans hrest.symm)
          rw [hpasses.agrees.exact hadvice, hadvice, named_moves, List.append_assoc] at hsplit
          have hmore := List.append_cancel_left hsplit
          rw [Option.elim_some] at hmore
          rw [← hmore] at hmoves hfuel
          have hlength : 0 < range.moves.length := by
            rw [UsedRange.moves, List.length_map, length_copies]
            exact hwithin.pos
          rw [List.length_append] at hfuel
          have hgather := gatherRange_spec hcapacity hwithin
            (fun move hmove => hmoves move (List.mem_append_left _ hmove)) memory
          have hloop := (@ih _ left) hpasses.valid (hpasses.same.advice.trans hadvice) hleft
            (fun move hmove => hmoves move (List.mem_append_right _ hmove)) (by omega)
            (dataset.written memory range.moves)
          rw [← hmore, written_append, ← hloop]
          show (dataset.gatherRange capacity memory range >>= _) = _
          rw [hgather]
          rfl

theorem adviseLoop_spec {labelled : Bool} {fuel : Nat} {cursor : UsedRangeCursor}
    {rest : List (ReadSection × Nat × Nat)} (h : Valid dataset labelled cursor)
    (hrest : cursor.passed dataset labelled ++ rest = cursor.all dataset labelled)
    (hfuel : rest.length < fuel) : dataset.adviseLoop fuel cursor = .ok () := by
  induction fuel generalizing cursor rest with
  | zero => exact absurd hfuel (Nat.not_lt_zero _)
  | succ fuel ih =>
      obtain ⟨result, other, hnext, hpasses, hresult, -⟩ :=
        (@next_spec _ _ _ readChunkBytes) h (by decide) (Nat.le_refl _)
      rw [adviseLoop, hnext]
      cases result with
      | none => rfl
      | some range =>
          obtain ⟨left, hleft, -⟩ := exists_rest hpasses.valid
          have htotal := congrArg List.length (hleft.trans (hpasses.all_eq.trans hrest.symm))
          have hgrown := hpasses.agrees.length
          have hnamed : (named cursor.advice (some range)).length = range.bytes := by
            rw [named, Option.elim_some, UsedRange.copied, tracked, List.length_map, length_copies]
          have hpos := (hresult range rfl).pos
          rw [List.length_append, List.length_append] at htotal
          rw [List.length_append, hnamed] at hgrown
          exact ih hpasses.valid hleft (by omega)

/-- The pixels of one read. -/
def copyImage (dataset : CompiledDataset) (memory : Nat → UInt8) (read : CompiledImageRead) :
    Nat → UInt8 :=
  overwrite memory dataset.mapping read.destinationOffset
    (dataset.layout.pixelAt (read.index / compiledBlockSlots) (read.index % compiledBlockSlots))
    dataset.layout.imageStride

theorem readMoves_none (reads : List CompiledImageRead) :
    dataset.readMoves reads none = dataset.sectionMoves reads 0 .pixels :=
  List.nil_append _

theorem written_reads (memory : Nat → UInt8) (hfits : ∀ read ∈ reads,
      read.destinationOffset + dataset.layout.imageStride < 2 ^ 64) :
    dataset.written memory (dataset.readMoves reads none) =
      reads.foldl dataset.copyImage memory := by
  rw [readMoves_none]
  induction reads generalizing memory with
  | nil => rfl
  | cons read reads ih =>
      obtain ⟨hread, hreads⟩ := List.forall_mem_cons.mp hfits
      have himage : dataset.written memory
          ((dataset.sectionCopies 0 .pixels read).map (ReadSection.pixels, ·)) =
            dataset.copyImage memory read := by
        rw [written, List.map_map]
        exact (congrArg _ (List.map_id _)).trans (copyAll_copies _ _ (Nat.le_of_lt hread))
      rw [sectionMoves, List.flatMap_cons, written_append, himage, List.foldl_cons]
      exact ih (dataset.copyImage memory read) hreads

theorem length_readMoves : (dataset.readMoves reads none).length =
    reads.length * dataset.layout.imageStride := by
  rw [readMoves_none, sectionMoves]
  induction reads with
  | nil => exact (Nat.zero_mul _).symm
  | cons read reads ih =>
      rw [List.flatMap_cons, List.length_append, ih, List.length_map,
        sectionCopies, length_copies, List.length_cons, Nat.succ_mul, Nat.add_comm]

/-- The pixels of eligible slots are in the file, and the reads' destinations have room. -/
theorem readMoves_inside (hreadable : dataset.Readable reads) (hcapacity : capacity < 2 ^ 64)
    (hfits : ∀ read ∈ reads, read.destinationOffset + dataset.layout.imageStride ≤ capacity) :
    dataset.Moves capacity (dataset.readMoves reads none) := by
  intro move hmove
  rw [readMoves_none, sectionMoves, List.mem_flatMap] at hmove
  obtain ⟨read, hread, hmove⟩ := hmove
  obtain ⟨pair, hpair, rfl⟩ := List.mem_map.mp hmove
  rw [sectionCopies, mem_copies] at hpair
  obtain ⟨index, hindex, rfl⟩ := hpair
  obtain ⟨slots, stride, labelCapacity, catalog, hcomputed⟩ := hreadable.computed
  have hpixels := hcomputed.pixels_le_indexOffset (slot_lt hreadable hread)
  have htotal := hcomputed.totalSize_eq
  have hmapped := hreadable.mapped
  have hdestination := hfits read hread
  rw [hcomputed.stride_eq] at hindex hdestination
  refine ⟨by simp only; omega, ?_⟩
  simp only
  rw [Nat.mod_eq_of_lt (by omega)]
  omega

/-- A read of images writes what a copy for each of its reads writes. -/
theorem readImages_spec (hreadable : dataset.Readable reads) (hcapacity : capacity < 2 ^ 64)
    (hfits : ∀ read ∈ reads, read.destinationOffset + dataset.layout.imageStride ≤ capacity)
    (memory : Nat → UInt8) :
    dataset.readImages reads capacity memory = .ok (reads.foldl dataset.copyImage memory) := by
  have hlabels : dataset.LabelsFit reads ((none : Option Nat).getD 0) :=
    fun _ _ _ _ _ => by simp
  have hchecked : (reads.any fun read => !dataset.eligible read.index ||
      capacity < read.destinationOffset ||
      capacity - read.destinationOffset < dataset.layout.imageStride) = false := by
    rw [List.any_eq_false]
    intro read hread
    have hroom := hfits read hread
    simp only [hreadable.eligible read hread, Bool.not_true, Bool.false_or, Bool.or_eq_true,
      decide_eq_true_eq]
    omega
  obtain ⟨advice, hadvice, hadvised, hreads, hpitch, -, -⟩ :=
    usedRanges_valid hreadable hlabels true
  obtain ⟨rest, hrest, -⟩ := exists_rest hadvised
  have hcount := congrArg List.length (hrest.trans (all_eq hpitch))
  rw [List.length_append, List.length_map, hreads, length_readMoves] at hcount
  have hadviseLoop := (@adviseLoop_spec _ _ (reads.length * dataset.layout.imageStride + 1))
    hadvised hrest (by omega)
  obtain ⟨cursor, hcursor, hvalid, hplain, hall⟩ := usedRanges_rest hreadable hlabels
  have hgatherLoop := (@gatherLoop_spec _ _ _ (reads.length * dataset.layout.imageStride + 1))
    hvalid hplain hall hcapacity (readMoves_inside hreadable hcapacity hfits)
    (by rw [length_readMoves]; exact Nat.lt_succ_self _) memory
  rw [written_reads memory fun read hread =>
    Nat.lt_of_le_of_lt (hfits read hread) hcapacity] at hgatherLoop
  rw [readImages, if_neg (by rw [hchecked]; nofun), hadvice, hcursor]
  show (dataset.adviseLoop _ advice >>= _) = _
  rw [hadviseLoop]
  exact hgatherLoop

/-- The ranges of a cursor, of a saved cursor and of advice, and what a read writes with them. -/
theorem usedRanges_moves (dataset : CompiledDataset) (reads : List CompiledImageRead)
    (labelPitch : Option Nat) (hreadable : dataset.Readable reads)
    (hfits : dataset.LabelsFit reads (labelPitch.getD 0)) :
    (∃ cursor, dataset.usedRanges reads labelPitch false = .ok cursor ∧
      Yields dataset cursor (dataset.readMoves reads labelPitch) ∧
      ∀ limits ranges saved, Limits limits → drain dataset cursor limits = .ok (ranges, saved) →
        ∃ rest, rangeMoves ranges ++ rest = dataset.readMoves reads labelPitch ∧
          Yields dataset saved rest) ∧
    (∃ cursor, dataset.usedRanges reads labelPitch true = .ok cursor ∧
      Advises dataset cursor (dataset.readMoves reads labelPitch)) ∧
    (∀ capacity < 2 ^ 64,
      (∀ read ∈ reads, read.destinationOffset + dataset.layout.imageStride ≤ capacity) →
      ∀ memory, dataset.readImages reads capacity memory =
        .ok (reads.foldl dataset.copyImage memory)) := by
  refine ⟨?_, ?_, fun capacity hcapacity hroom memory =>
    readImages_spec hreadable hcapacity hroom memory⟩
  · obtain ⟨cursor, hcursor, hvalid, hadvice, hrest⟩ := usedRanges_rest hreadable hfits
    refine ⟨cursor, hcursor, yields_rest hvalid hadvice hrest, ?_⟩
    intro limits ranges saved hlimits hdrain
    obtain ⟨ranges', saved', hdrain', hpasses, -, -⟩ := drain_spec hvalid hlimits
    obtain ⟨rfl, rfl⟩ := Prod.ext_iff.mp (Except.ok.inj (hdrain'.symm.trans hdrain))
    obtain ⟨rest, hleft, -⟩ := exists_rest hpasses.valid
    have hmoves : namedAll cursor.advice ranges' = rangeMoves ranges' := by
      rw [namedAll_eq, hadvice, erase_false, List.map_id]
    have hsplit := hleft.trans (hpasses.all_eq.trans hrest.symm)
    rw [hpasses.agrees.exact hadvice, hmoves, List.append_assoc] at hsplit
    exact ⟨rest, List.append_cancel_left hsplit,
      yields_rest hpasses.valid (hpasses.same.advice.trans hadvice) hleft⟩
  · obtain ⟨cursor, hcursor, hvalid, hreads, hpitch, hadvice, hagrees⟩ :=
      usedRanges_valid hreadable hfits true
    exact ⟨cursor, hcursor, hreads ▸ advises_all hvalid hadvice hpitch hagrees⟩

/-- Two images of twelve bytes, one of them without labels. -/
def twoImages : CompiledDataset where
  layout := ⟨2, 12, 4096, 8, 4096, 262144, 2097152, 0, 2097152, 64, 4194304, 4194368⟩
  imageEntries := [⟨1, .eligible, 5, 0⟩, ⟨0, .eligible, 0, 0⟩]
  mappingSize := 4194368
  mapping := fun address => UInt8.ofNat address

/-- The second image twice, with the first between. -/
theorem usedRanges_moves_twoImages : ∃ cursor,
    twoImages.usedRanges [⟨1, 12⟩, ⟨0, 0⟩, ⟨1, 24⟩] (some 8) false = .ok cursor ∧
      Yields twoImages cursor (twoImages.readMoves [⟨1, 12⟩, ⟨0, 0⟩, ⟨1, 24⟩] (some 8)) := by
  have hlayout : computeFileLayout 2 12 8 0 = .ok twoImages.layout := by decide
  have hreadable : twoImages.Readable [⟨1, 12⟩, ⟨0, 0⟩, ⟨1, 24⟩] :=
    ⟨⟨2, 12, 8, 0, computeFileLayout_ok hlayout⟩, rfl, Nat.le_refl _, by decide⟩
  have hplace : ∀ read ∈ [CompiledImageRead.mk 1 12, ⟨0, 0⟩, ⟨1, 24⟩],
      read.destinationOffset / twoImages.layout.imageStride ≤ 2 := by decide
  have hfits : twoImages.LabelsFit [⟨1, 12⟩, ⟨0, 0⟩, ⟨1, 24⟩] 8 := fun read hread _ _ _ =>
    Nat.lt_of_le_of_lt (Nat.mul_le_mul_right 8 (hplace read hread)) (by decide)
  obtain ⟨cursor, hcursor, hyields, -⟩ :=
    (usedRanges_moves twoImages _ (some 8) hreadable hfits).1
  exact ⟨cursor, hcursor, hyields⟩

end CompiledDataset

end Mmltk.Compiled
