import Mathlib.Data.List.Forall2
import Mmltk.Compiled.UsedRangeRuns

namespace Mmltk.Compiled

open Mmltk.Foundation

/-! The ranges of a cursor as the copies of its reads, and what a read of images writes. -/

/-- Bytes from where to where, by section. -/
def UsedRange.moves (range : UsedRange) : List (ReadSection × Nat × Nat) :=
  (copies (2 ^ 64) range.sourceOffset range.destinationOffset range.bytes).map
    (range.readSection, ·)

def rangeMoves (ranges : List (Option UsedRange)) : List (ReadSection × Nat × Nat) :=
  ranges.flatMap fun range => range.elim [] UsedRange.moves

namespace CompiledDataset

variable (dataset : CompiledDataset)

def sectionMoves (reads : List CompiledImageRead) (labelPitch : Nat) (readSection : ReadSection) :
    List (ReadSection × Nat × Nat) :=
  reads.flatMap fun read =>
    (dataset.sectionCopies labelPitch readSection read).map (readSection, ·)

/-- Every image's labels in order, if labels are wanted, and then every image's pixels. -/
def readMoves (reads : List CompiledImageRead) (labelPitch : Option Nat) :
    List (ReadSection × Nat × Nat) :=
  labelPitch.elim [] (dataset.sectionMoves reads · .labels) ++
    dataset.sectionMoves reads (labelPitch.getD 0) .pixels

end CompiledDataset

namespace UsedRangeCursor

/-- Whatever the limits: the ranges are cut from `moves`, and the cursor is empty after the last. -/
def Yields (dataset : CompiledDataset) (cursor : UsedRangeCursor)
    (moves : List (ReadSection × Nat × Nat)) : Prop :=
  ∀ limits, Limits limits → ∃ ranges other, drain dataset cursor limits = .ok (ranges, other) ∧
    List.Forall₂ (fun limit range => ∀ held ∈ range, UsedRange.bytes held ≤ limit) limits ranges ∧
    rangeMoves ranges <+: moves ∧
    (other.empty = true ↔ rangeMoves ranges = moves) ∧
    (moves.length ≤ limits.length → other.empty = true)

/-- The places in the file that moves are from. -/
def sources (moves : List (ReadSection × Nat × Nat)) : List (ReadSection × Nat) :=
  moves.map fun move => (move.1, move.2.1)

/-- Advice names what is to be read, some of it perhaps once where it is read twice. -/
def Advises (dataset : CompiledDataset) (cursor : UsedRangeCursor)
    (moves : List (ReadSection × Nat × Nat)) : Prop :=
  ∀ limits, Limits limits → ∃ ranges other, drain dataset cursor limits = .ok (ranges, other) ∧
    List.Forall₂ (fun limit range => ∀ held ∈ range, UsedRange.bytes held ≤ limit) limits ranges ∧
    (∀ source ∈ sources (rangeMoves ranges), source ∈ sources moves) ∧
    (other.empty = true → ∀ source ∈ sources moves, source ∈ sources (rangeMoves ranges)) ∧
    (moves.length ≤ limits.length → other.empty = true)

variable {dataset : CompiledDataset} {labelled : Bool} {cursor : UsedRangeCursor}

/-- Inside an image something of its section is left. -/
theorem exists_section_rest (h : Inside dataset cursor) : ∃ rest ≠ [],
    cursor.prefixCopied dataset cursor.readSection cursor.image cursor.offset ++ rest =
      cursor.sectionCopied dataset cursor.readSection := by
  obtain ⟨read, hread, hoffset⟩ := h
  refine ⟨(cursor.imageCopied dataset cursor.readSection read).drop cursor.offset ++
    (cursor.reads.drop (cursor.image + 1)).flatMap
      (cursor.imageCopied dataset cursor.readSection), ?_, ?_⟩
  · refine List.append_ne_nil_of_left_ne_nil ?_ _
    rw [ne_eq, List.drop_eq_nil_iff, length_imageCopied]
    exact Nat.not_le.mpr hoffset
  · have hsplit : cursor.reads = cursor.reads.take cursor.image ++
        read :: cursor.reads.drop (cursor.image + 1) := by
      obtain ⟨hlt, rfl⟩ := List.getElem?_eq_some_iff.mp hread
      rw [List.getElem_cons_drop, List.take_append_drop]
    conv_rhs => rw [sectionCopied, hsplit, List.flatMap_append, List.flatMap_cons]
    rw [prefixCopied, hread, Option.elim_some, List.append_assoc,
      ← List.append_assoc (List.take _ _), List.take_append_drop]

theorem exists_rest (h : Valid dataset labelled cursor) : ∃ rest,
    cursor.passed dataset labelled ++ rest = cursor.all dataset labelled ∧
      (rest = [] ↔ cursor.active = false) := by
  cases hactive : cursor.active with
  | false =>
      refine ⟨[], ?_, iff_of_true rfl rfl⟩
      rw [List.append_nil, passed, if_neg (by simp [hactive])]
  | true =>
      obtain ⟨rest, hne, hrest⟩ := exists_section_rest (h.inside hactive)
      rw [passed, if_pos hactive]
      cases hsection : cursor.readSection with
      | labels =>
          refine ⟨rest ++ cursor.sectionCopied dataset .pixels, ?_, iff_of_false ?_ (by decide)⟩
          · rw [hsection] at hrest
            rw [← List.append_assoc, List.append_assoc _ _ rest, hrest, all, earlier, earlier,
              if_pos (h.labelled hsection), List.nil_append]
          · exact List.append_ne_nil_of_left_ne_nil hne _
      | pixels =>
          refine ⟨rest, ?_, iff_of_false hne (by decide)⟩
          rw [hsection] at hrest
          rw [List.append_assoc, hrest, all]

/-- A destination that is not looked at. -/
def erase (advice : Bool) (move : ReadSection × Nat × Nat) : ReadSection × Nat × Nat :=
  (move.1, move.2.1, if advice then 0 else move.2.2)

theorem tracked_eq (advice : Bool) (readSection : ReadSection) (pairs : List (Nat × Nat)) :
    tracked advice readSection pairs = (pairs.map (readSection, ·)).map (erase advice) := by
  rw [tracked, List.map_map]
  rfl

theorem namedAll_eq (advice : Bool) (ranges : List (Option UsedRange)) :
    namedAll advice ranges = (rangeMoves ranges).map (erase advice) := by
  rw [namedAll, rangeMoves, List.map_flatMap]
  refine congrArg (List.flatMap · ranges) (funext fun range => ?_)
  cases range with
  | none => rfl
  | some range => exact tracked_eq advice _ _

theorem sectionCopied_eq (readSection : ReadSection) :
    cursor.sectionCopied dataset readSection =
      (dataset.sectionMoves cursor.reads cursor.labelPitch readSection).map
        (erase cursor.advice) := by
  rw [sectionCopied, CompiledDataset.sectionMoves, List.map_flatMap]
  exact congrArg (List.flatMap · cursor.reads) (funext fun read => tracked_eq _ _ _)

theorem all_eq {labelPitch : Option Nat} (hpitch : cursor.labelPitch = labelPitch.getD 0) :
    cursor.all dataset labelPitch.isSome =
      (dataset.readMoves cursor.reads labelPitch).map (erase cursor.advice) := by
  rw [all, earlier, CompiledDataset.readMoves, List.map_append, sectionCopied_eq,
    sectionCopied_eq, hpitch]
  cases labelPitch with
  | none => rfl
  | some pitch => rfl

theorem erase_false : erase false = id := rfl

/-- Ranges that are there name a byte each at least. -/
theorem length_le_namedAll {advice : Bool} {limits : List Nat} {ranges : List (Option UsedRange)}
    (hwithin : List.Forall₂ (fun limit range => ∀ held ∈ range, UsedRange.Within limit held)
      limits ranges) (hsome : ∀ range ∈ ranges, range.isSome) :
    limits.length ≤ (namedAll advice ranges).length := by
  induction hwithin with
  | nil => exact Nat.zero_le _
  | @cons limit range limits ranges hrange _ ih =>
      obtain ⟨hthere, hrest⟩ := List.forall_mem_cons.mp hsome
      obtain ⟨held, rfl⟩ := Option.isSome_iff_exists.mp hthere
      have hpos := (hrange held rfl).pos
      have hlength : (named advice (some held)).length = held.bytes := by
        rw [named, Option.elim_some, UsedRange.copied, tracked, List.length_map, length_copies]
      rw [namedAll, List.flatMap_cons, List.length_append, List.length_cons, hlength]
      exact Nat.add_comm _ _ ▸ Nat.add_le_add hpos (ih hrest)

/-- What a drained cursor has named, and what it has left. -/
theorem drain_rest {limits : List Nat} {rest : List (ReadSection × Nat × Nat)}
    (h : Valid dataset labelled cursor) (hlimits : Limits limits)
    (hrest : cursor.passed dataset labelled ++ rest = cursor.all dataset labelled) :
    ∃ ranges other left, drain dataset cursor limits = .ok (ranges, other) ∧
      Passes dataset labelled cursor other (namedAll cursor.advice ranges) ∧
      List.Forall₂ (fun limit range => ∀ held ∈ range, UsedRange.bytes held ≤ limit)
        limits ranges ∧
      other.passed dataset labelled ++ left = cursor.all dataset labelled ∧
      (left = [] ↔ other.active = false) ∧
      (rest.length ≤ limits.length → other.active = false) := by
  obtain ⟨ranges, other, hdrain, hpasses, hwithin, hsome⟩ := drain_spec h hlimits
  obtain ⟨left, hleft, hempty⟩ := exists_rest hpasses.valid
  rw [hpasses.all_eq] at hleft
  refine ⟨ranges, other, left, hdrain, hpasses,
    hwithin.imp (fun _ _ hrange held hheld => (hrange held hheld).le), hleft, hempty, ?_⟩
  intro henough
  cases hactive : other.active with
  | false => rfl
  | true =>
      have hcount := (@length_le_namedAll cursor.advice) hwithin (hsome hactive)
      have hgrown := hpasses.agrees.length
      have htotal := congrArg List.length (hleft.trans hrest.symm)
      have hpos : left.length ≠ 0 := fun hzero => by
        rw [hempty.mp (List.eq_nil_of_length_eq_zero hzero)] at hactive
        contradiction
      rw [List.length_append, List.length_append] at htotal
      rw [List.length_append] at hgrown
      omega

theorem empty_iff : cursor.empty = true ↔ cursor.active = false := by
  rw [empty, Bool.not_eq_true']

/-- What is left of a cursor is what it yields, from wherever it is. -/
theorem yields_rest {rest : List (ReadSection × Nat × Nat)} (h : Valid dataset labelled cursor)
    (hadvice : cursor.advice = false)
    (hrest : cursor.passed dataset labelled ++ rest = cursor.all dataset labelled) :
    Yields dataset cursor rest := by
  intro limits hlimits
  obtain ⟨ranges, other, left, hdrain, hpasses, hwithin, hleft, hempty, henough⟩ :=
    drain_rest h hlimits hrest
  have hmoves : namedAll cursor.advice ranges = rangeMoves ranges := by
    rw [namedAll_eq, hadvice, erase_false, List.map_id]
  rw [hpasses.agrees.exact hadvice, hmoves, ← hrest, List.append_assoc] at hleft
  have hsplit := List.append_cancel_left hleft
  refine ⟨ranges, other, hdrain, hwithin, ⟨left, hsplit⟩, ?_, ?_⟩
  · rw [empty_iff, ← hempty, ← hsplit, List.self_eq_append_right]
  · rw [empty_iff]
    exact henough

/-- The sources of moves do not depend on what is not looked at. -/
theorem mem_sources {source : ReadSection × Nat} {moves : List (ReadSection × Nat × Nat)} :
    source ∈ sources moves ↔ (source.1, source.2, 0) ∈ moves.map (erase true) := by
  simp only [sources, List.mem_map, erase, if_true, Prod.ext_iff, and_true]

theorem advises_all {labelPitch : Option Nat} (h : Valid dataset labelPitch.isSome cursor)
    (hadvice : cursor.advice = true) (hpitch : cursor.labelPitch = labelPitch.getD 0)
    (hpassed : Agrees true (cursor.passed dataset labelPitch.isSome) []) :
    Advises dataset cursor (dataset.readMoves cursor.reads labelPitch) := by
  intro limits hlimits
  obtain ⟨rest, hrest, -⟩ := exists_rest h
  obtain ⟨ranges, other, left, hdrain, hpasses, hwithin, hleft, hempty, henough⟩ :=
    drain_rest h hlimits hrest
  have hnamed : ∀ source, source ∈ sources (rangeMoves ranges) ↔
      (source.1, source.2, 0) ∈ other.passed dataset labelPitch.isSome := by
    intro source
    have hitems := (hadvice ▸ hpasses.agrees).items (source.1, source.2, 0)
    have hbefore := hpassed.items (source.1, source.2, 0)
    rw [hitems, List.mem_append, hbefore, mem_sources, ← namedAll_eq]
    exact ⟨.inr, fun h => h.resolve_left List.not_mem_nil⟩
  have hall : ∀ source, source ∈ sources (dataset.readMoves cursor.reads labelPitch) ↔
      (source.1, source.2, 0) ∈ cursor.all dataset labelPitch.isSome := by
    intro source
    rw [mem_sources, all_eq hpitch, hadvice]
  refine ⟨ranges, other, hdrain, hwithin, fun source hsource => ?_, fun hdone source hsource => ?_,
    fun hlength => ?_⟩
  · rw [hall, ← hleft]
    exact List.mem_append_left _ ((hnamed source).mp hsource)
  · rw [hall, ← hleft, hempty.mpr (empty_iff.mp hdone), List.append_nil] at hsource
    exact (hnamed source).mpr hsource
  · have htotal := congrArg List.length (hrest.trans (all_eq hpitch))
    rw [List.length_append, List.length_map] at htotal
    exact empty_iff.mpr (henough (by omega))

end UsedRangeCursor

namespace CompiledDataset

open UsedRangeCursor

variable {dataset : CompiledDataset} {reads : List CompiledImageRead}

theorem usedRanges_valid {labelPitch : Option Nat} (hreadable : dataset.Readable reads)
    (hfits : dataset.LabelsFit reads (labelPitch.getD 0)) (advice : Bool) :
    ∃ cursor, dataset.usedRanges reads labelPitch advice = .ok cursor ∧
      Valid dataset labelPitch.isSome cursor ∧ cursor.reads = reads ∧
      cursor.labelPitch = labelPitch.getD 0 ∧ cursor.advice = advice ∧
      Agrees advice (cursor.passed dataset labelPitch.isSome) [] := by
  obtain ⟨cursor, hcursor, hsame, hvalid, hagrees⟩ :=
    (@normalize_spec _ labelPitch.isSome {
      active := true
      reads
      labelPitch := labelPitch.getD 0
      image := 0
      offset := 0
      readSection := if labelPitch.isSome then .labels else .pixels
      advice })
    ⟨hreadable, hfits, fun hlabels => by
      cases labelPitch with
      | none => contradiction
      | some pitch => rfl⟩
    fun _ => .inl ⟨rfl, Nat.zero_le _⟩
  refine ⟨cursor, hcursor, hvalid, hsame.reads, hsame.labelPitch, hsame.advice,
    hagrees.trans (.of_eq ?_)⟩
  rw [passed, if_pos rfl, prefixCopied_zero, List.append_nil]
  cases labelPitch with
  | none => rfl
  | some pitch => rfl

theorem usedRanges_rest {labelPitch : Option Nat} (hreadable : dataset.Readable reads)
    (hfits : dataset.LabelsFit reads (labelPitch.getD 0)) :
    ∃ cursor, dataset.usedRanges reads labelPitch false = .ok cursor ∧
      Valid dataset labelPitch.isSome cursor ∧ cursor.advice = false ∧
      cursor.passed dataset labelPitch.isSome ++ dataset.readMoves reads labelPitch =
        cursor.all dataset labelPitch.isSome := by
  obtain ⟨cursor, hcursor, hvalid, hreads, hpitch, hadvice, hagrees⟩ :=
    usedRanges_valid hreadable hfits false
  refine ⟨cursor, hcursor, hvalid, hadvice, ?_⟩
  rw [hagrees.exact rfl, List.nil_append, all_eq hpitch, hadvice, erase_false, List.map_id, hreads]

end CompiledDataset

end Mmltk.Compiled
