import Mmltk.Coconut.MaskRecovery
import Mmltk.Dataset.MaskSound
import Mmltk.Foundation.OrderedIntervals

namespace Mmltk.Coconut

open Mmltk.Foundation
open Mmltk.Dataset (RLEPair RowMajorMaskBounds MaskError TightBounds Foreground
  includeRowMajorMaskRun includeRowMajorMaskRun_ok runBox runBox_tight)

/-! Runs as sets of pixels: measured, compared, united and carved. -/

namespace CoconutMaskRecovery

/-- An image whose pixels can be numbered with 32 bits. -/
structure Sized (width pixels : Nat) : Prop where
  width_pos : 0 < width
  width_lt : width < 2 ^ 32
  pixels_lt : pixels < 2 ^ 32

variable {width pixels previous first last pixel : Nat} {bounds other : RowMajorMaskBounds}
  {run : RLEPair} {runs left right : List RLEPair} {seen : Nat → Prop}

theorem Sized.include (h : Sized width pixels) (hbounds : TightBounds width seen bounds)
    (hlt : first < last) (hle : last ≤ pixels) :
    includeRowMajorMaskRun bounds first last width = .ok (bounds.join (runBox first last width)) ∧
      TightBounds width (fun pixel => seen pixel ∨ first ≤ pixel ∧ pixel < last)
        (bounds.join (runBox first last width)) := by
  have hpixels := h.pixels_lt
  have hrows : (last - 1) / width < 2 ^ 32 := (Nat.div_le_self _ _).trans_lt (by omega)
  exact ⟨includeRowMajorMaskRun_ok hbounds h.width_pos h.width_lt hlt hrows,
    hbounds.join (runBox_tight h.width_pos hlt) rfl⟩

theorem foreground_cons : Foreground (run :: runs) pixel ↔
    (run.start ≤ pixel ∧ pixel < stop run) ∨ Foreground runs pixel := covered_cons

/-- Runs that follow each other from a pixel on, inside the image. -/
structure Fits (pixels previous : Nat) (runs : List RLEPair) : Prop where
  ordered : Ordered (runs.map RLEPair.interval)
  within : ∀ run ∈ runs, previous ≤ run.start ∧ stop run ≤ pixels

theorem fits_nil : Fits pixels previous [] := ⟨.nil, nofun⟩

theorem fits_cons : Fits pixels previous (run :: runs) ↔
    ¬ (run.length = 0 ∨ run.start < previous ∨ pixels < stop run) ∧
      Fits pixels (stop run) runs := by
  constructor
  · intro h
    obtain ⟨hvalid, hlater, hrest⟩ := Ordered.cons_iff.mp h.ordered
    have hhead := h.within run List.mem_cons_self
    have hlength : run.start < run.start + run.length := hvalid
    refine ⟨by omega, hrest, fun later hmem => ⟨?_, (h.within later (List.mem_cons_of_mem _ hmem)).2⟩⟩
    exact hlater _ (List.mem_map_of_mem hmem)
  · intro h
    obtain ⟨hhead, hrest⟩ := h
    rw [not_or, not_or, not_lt, not_lt] at hhead
    have hstop : run.start < stop run := Nat.lt_add_of_pos_right (Nat.pos_of_ne_zero hhead.1)
    refine ⟨Ordered.cons_iff.mpr ⟨hstop, fun later hmem => ?_, hrest.ordered⟩, fun later hmem => ?_⟩
    · obtain ⟨next, hnext, rfl⟩ := List.mem_map.mp hmem
      exact (hrest.within next hnext).1
    · rcases List.mem_cons.mp hmem with rfl | hlater
      · exact hhead.2
      · have hwithin := hrest.within later hlater
        omega

theorem Fits.lt (h : Fits pixels previous runs) (hpixel : Foreground runs pixel) : pixel < pixels := by
  obtain ⟨interval, hmem, hin⟩ := hpixel
  obtain ⟨run, hrun, rfl⟩ := List.mem_map.mp hmem
  exact hin.2.trans_le (h.within run hrun).2

/-- The runs are counted and boxed if they fit, and refused if they do not. -/
theorem measure_spec (h : Sized width pixels) (hbounds : TightBounds width seen bounds) (area : Nat) :
    (Fits pixels previous runs → ∃ box,
      measure pixels width previous area bounds runs =
          .ok (some (area + totalLength (runs.map RLEPair.interval), box)) ∧
        TightBounds width (fun pixel => seen pixel ∨ Foreground runs pixel) box) ∧
      (¬ Fits pixels previous runs → measure pixels width previous area bounds runs = .ok none) := by
  induction runs generalizing previous area bounds seen with
  | nil =>
      refine ⟨fun _ => ⟨bounds, rfl, hbounds.congr fun pixel => ?_⟩, fun hnot => absurd fits_nil hnot⟩
      exact (or_iff_left covered_nil).symm
  | cons run runs ih =>
      rw [fits_cons, measure]
      split
      next hbad => exact ⟨fun hfits => absurd hbad hfits.1, fun _ => rfl⟩
      next hgood =>
        rw [not_or, not_or, not_lt, not_lt] at hgood
        have hstop : run.start < stop run := Nat.lt_add_of_pos_right (Nat.pos_of_ne_zero hgood.1)
        obtain ⟨hinclude, hnext⟩ := h.include hbounds hstop hgood.2.2
        obtain ⟨hfit, hunfit⟩ := @ih (stop run) _ _ hnext (area + run.length)
        rw [hinclude]
        refine ⟨fun hfits => ?_, fun hnot => hunfit fun hrest => hnot ⟨by omega, hrest⟩⟩
        obtain ⟨box, hmeasure, hbox⟩ := hfit hfits.2
        have hlength : stop run - run.start = run.length := Nat.add_sub_cancel_left _ _
        refine ⟨box, ?_, hbox.congr fun pixel => ?_⟩
        · refine hmeasure.trans ?_
          rw [totalLength, totalLength, List.map_cons, List.map_cons, List.sum_cons]
          change _ = Except.ok (some (area + (stop run - run.start + _), box))
          rw [hlength, Nat.add_assoc]
        · rw [foreground_cons, or_assoc]

/-- The mask of a box, as the importer of the originals wrote it. -/
def ValidMask (index : NormalizedAnnotationIndex) (pixels : Nat) (box : NormalizedBox) : Prop :=
  admissible index box = true ∧ Fits pixels 0 (index.runsOf box)

/-- A candidate with its mask. -/
structure Filled (index : NormalizedAnnotationIndex) (width : Nat) (candidate filled : Candidate) :
    Prop where
  box : filled.box = candidate.box
  group : filled.group = candidate.group
  runs : filled.runs = index.runsOf candidate.box
  area : filled.area = totalLength (filled.runs.map RLEPair.interval)
  bounds : TightBounds width (Foreground filled.runs) filled.bounds

/-- A candidate as it is entered. -/
def fresh (slot : Nat) (box : NormalizedBox) : Candidate := ⟨box, [], {}, slot, 0⟩

theorem candidateMask_spec {index : NormalizedAnnotationIndex} {height slot : Nat}
    (h : Sized width (width * height)) (box : NormalizedBox) :
    (ValidMask index (width * height) box → ∃ filled,
      candidateMask index width height (fresh slot box) = .ok (some filled) ∧
        Filled index width (fresh slot box) filled) ∧
      (¬ ValidMask index (width * height) box →
        candidateMask index width height (fresh slot box) = .ok none) := by
  obtain ⟨hfit, hunfit⟩ := @measure_spec width (width * height) 0 {} (index.runsOf box) _ h .nothing 0
  rw [candidateMask]
  split
  next hbad => exact ⟨fun hvalid => absurd hvalid.1 hbad, fun _ => rfl⟩
  next hgood =>
    rw [not_not] at hgood
    refine ⟨fun hvalid => ?_, fun hnot => ?_⟩
    · obtain ⟨box', hmeasure, hbox⟩ := hfit hvalid.2
      refine ⟨⟨box, index.runsOf box, box', slot,
        0 + totalLength ((index.runsOf box).map RLEPair.interval)⟩, ?_, rfl, rfl, rfl,
        Nat.zero_add _, hbox.congr fun pixel => iff_of_eq (false_or _)⟩
      change measure _ _ 0 0 {} (index.runsOf box) >>= _ = _
      rw [hmeasure]
      rfl
    · change measure _ _ 0 0 {} (index.runsOf box) >>= _ = _
      rw [hunfit fun hfits => hnot ⟨hgood, hfits⟩]
      rfl

/-- Two cursors over ordered runs find a shared pixel if there is one. -/
theorem overlaps_iff (hleft : Ordered (left.map RLEPair.interval))
    (hright : Ordered (right.map RLEPair.interval)) :
    overlaps left right = true ↔ ∃ pixel, Foreground left pixel ∧ Foreground right pixel := by
  fun_induction overlaps left right with
  | case1 => exact iff_of_false Bool.false_ne_true fun ⟨pixel, h, _⟩ => covered_nil h
  | case2 => exact iff_of_false Bool.false_ne_true fun ⟨pixel, _, h⟩ => covered_nil h
  | case3 first lefts second rights hshared =>
      have hfirst : first.start < stop first := hleft.valid _ List.mem_cons_self
      have hsecond : second.start < stop second := hright.valid _ List.mem_cons_self
      refine iff_of_true rfl ⟨max first.start second.start, ?_, ?_⟩
      · exact foreground_cons.mpr (.inl (by omega))
      · exact foreground_cons.mpr (.inl (by omega))
  | case4 first lefts second rights hapart hbefore ih =>
      rw [ih (Ordered.cons_iff.mp hleft).2.2 hright]
      refine exists_congr fun pixel => and_congr_left fun hpixel => ?_
      have hge : second.start ≤ pixel := hright.head_ge hpixel
      rw [foreground_cons, or_iff_right]
      omega
  | case5 first lefts second rights hapart hbefore ih =>
      rw [ih hleft (Ordered.cons_iff.mp hright).2.2]
      refine exists_congr fun pixel => and_congr_right fun hpixel => ?_
      have hge : first.start ≤ pixel := hleft.head_ge hpixel
      rw [foreground_cons, or_iff_right]
      omega

/-- Boxes that are apart have no pixel in common. -/
theorem not_shared_of_apart {pixels others : Nat → Prop} (h : TightBounds width pixels bounds)
    (hother : TightBounds width others other) (hapart : apart bounds other = true) :
    ¬ (pixels pixel ∧ others pixel) := by
  rintro ⟨hin, hinOther⟩
  have hany : bounds.hasForeground = true := by
    by_contra hnone
    exact (h.empty (by simpa using hnone)).2 pixel hin
  have hanyOther : other.hasForeground = true := by
    by_contra hnone
    exact (hother.empty (by simpa using hnone)).2 pixel hinOther
  have hwithin := h.within hany pixel hin
  have hwithinOther := hother.within hanyOther pixel hinOther
  simp only [apart, Bool.or_eq_true, decide_eq_true_eq] at hapart
  omega

/-- The runs, the area and the bounds of a support are those of one set of pixels. -/
structure Held (width pixels : Nat) (support : Support) : Prop where
  fits : Fits pixels 0 support.runs.view
  area : support.area = totalLength (support.runs.view.map RLEPair.interval)
  bounds : TightBounds width (Foreground support.runs.view) support.bounds

theorem intersects_iff {support : Support} {candidate : Candidate} (h : Held width pixels support)
    (hfits : Fits pixels 0 candidate.runs)
    (hbounds : TightBounds width (Foreground candidate.runs) candidate.bounds) :
    intersects support candidate = true ↔
      ∃ pixel, Foreground support.runs.view pixel ∧ Foreground candidate.runs pixel := by
  rw [intersects, Bool.and_eq_true, overlaps_iff h.fits.ordered hfits.ordered, Bool.not_eq_true',
    ← Bool.not_eq_true]
  exact and_iff_right_of_imp fun ⟨pixel, hshared⟩ hapart =>
    not_shared_of_apart h.bounds hbounds hapart hshared

/-! The union. -/

/-- What is united so far; no later run begins before `start`. -/
structure United (width : Nat) (seen : Nat → Prop) (start : Nat) (union : Union) : Prop where
  separated : Separated 1 (union.combined.map RLEPair.interval)
  covered : ∀ pixel, Foreground union.combined pixel ↔ seen pixel
  bounds : TightBounds width seen union.bounds
  starts : ∀ run ∈ union.combined, run.start ≤ start

theorem united_nil (width : Nat) : United width (fun _ => False) 0 ⟨[], {}⟩ :=
  ⟨.nil, fun _ => iff_of_false covered_nil not_false, .nothing, nofun⟩

theorem emitUnion_spec {start : Nat} {union : Union} (h : Sized width pixels)
    (hunited : United width seen start union) (hstart : start ≤ run.start)
    (hlength : 0 < run.length) (hle : stop run ≤ pixels) :
    ∃ next, emitUnion width union run = .ok next ∧
      United width (fun pixel => seen pixel ∨ run.start ≤ pixel ∧ pixel < stop run) run.start
        next := by
  have hlt : run.start < stop run := Nat.lt_add_of_pos_right hlength
  obtain ⟨hinclude, hbounds⟩ := h.include hunited.bounds hlt hle
  have hseparated := hunited.separated
  have hcovered := hunited.covered
  rw [emitUnion, hinclude]
  rcases List.eq_nil_or_concat union.combined with hnil | ⟨front, prior, hconcat⟩
  · rw [hnil] at hcovered ⊢
    refine ⟨_, rfl, Separated.concat .nil hlt nofun, fun pixel => ?_, hbounds, fun own hown => ?_⟩
    · rw [← hcovered]
      exact foreground_cons.trans or_comm
    · rw [List.mem_singleton.mp hown]
  · rw [List.concat_eq_append] at hconcat
    have hprior := hunited.starts prior (hconcat ▸ List.mem_append_right _ List.mem_cons_self)
    have hback : union.combined.getLast? = some prior := by rw [hconcat, List.getLast?_concat]
    have hsplit : union.combined.map RLEPair.interval =
        front.map RLEPair.interval ++ [(prior.start, stop prior)] := by
      rw [hconcat, List.map_append, List.map_singleton]
      rfl
    have hvalid : prior.start < stop prior :=
      (hseparated.valid (prior.start, stop prior)
        (hsplit ▸ List.mem_append_right _ List.mem_cons_self)).1
    have hfrontStarts : ∀ own ∈ front, own.start ≤ run.start := fun own hown =>
      (hunited.starts own (hconcat ▸ List.mem_append_left _ hown)).trans hstart
    rw [hback]
    dsimp only
    split
    next hmeets =>
      have hinterval : RLEPair.interval
          ⟨prior.start, max (stop prior) (stop run) - prior.start⟩ =
            (prior.start, max (stop prior) (stop run)) := by
        refine Prod.ext rfl ?_
        simp only [RLEPair.interval]
        omega
      have hmap : (union.combined.dropLast ++
          [(⟨prior.start, max (stop prior) (stop run) - prior.start⟩ : RLEPair)]).map
            RLEPair.interval =
          front.map RLEPair.interval ++ [(prior.start, max (stop prior) (stop run))] := by
        rw [hconcat, List.dropLast_concat, List.map_append, List.map_singleton, hinterval]
      rw [hsplit] at hseparated
      refine ⟨_, rfl, ?_, fun pixel => ?_, hbounds, fun own hown => ?_⟩
      · rw [hmap]
        exact hseparated.widen (Nat.le_max_left _ _)
      · rw [Foreground, hmap, covered_widen hvalid.le (Nat.le_max_left _ _), ← hsplit, ← hcovered]
        constructor
        · rintro (hold | hnew)
          · exact .inl hold
          · exact .inr (by omega)
        · rintro (hold | hnew)
          · exact .inl hold
          · rcases Nat.lt_or_ge pixel (stop prior) with hbefore | hafter
            · refine .inl ?_
              rw [hsplit]
              exact covered_concat.mpr (.inr ⟨by omega, hbefore⟩)
            · exact .inr (by omega)
      · rw [hconcat, List.dropLast_concat] at hown
        rcases List.mem_append.mp hown with hfront | hlast
        · exact hfrontStarts own hfront
        · rw [List.mem_singleton.mp hlast]
          exact hprior.trans hstart
    next hgap =>
      refine ⟨_, rfl, ?_, fun pixel => ?_, hbounds, fun own hown => ?_⟩
      · rw [List.map_append, List.map_singleton]
        refine hseparated.concat hlt fun interval hmem => ?_
        rw [hsplit] at hseparated hmem
        exact (hseparated.le_last hmem).trans_lt (Nat.not_le.mp hgap)
      · rw [Foreground, List.map_append, List.map_singleton, covered_append, ← hcovered]
        exact or_congr_right covered_singleton
      · rcases List.mem_append.mp hown with hold | hlast
        · exact (hunited.starts own hold).trans hstart
        · rw [List.mem_singleton.mp hlast]

theorem emitUnions_spec {start : Nat} {union : Union} (h : Sized width pixels)
    (hunited : United width seen start union)
    (hsorted : runs.Pairwise fun run later => run.start ≤ later.start)
    (hruns : ∀ run ∈ runs, start ≤ run.start ∧ 0 < run.length ∧ stop run ≤ pixels) :
    ∃ last final, runs.foldlM (emitUnion width) union = .ok final ∧
      United width (fun pixel => seen pixel ∨ Foreground runs pixel) last final := by
  induction runs generalizing union seen start with
  | nil =>
      refine ⟨start, union, rfl, hunited.separated, fun pixel => ?_, hunited.bounds.congr fun pixel =>
        (or_iff_left covered_nil).symm, hunited.starts⟩
      exact (hunited.covered pixel).trans (or_iff_left covered_nil).symm
  | cons run runs ih =>
      obtain ⟨hfirst, hrest⟩ := List.pairwise_cons.mp hsorted
      obtain ⟨hstart, hlength, hle⟩ := hruns run List.mem_cons_self
      obtain ⟨next, hnext, hstep⟩ := emitUnion_spec h hunited hstart hlength hle
      obtain ⟨last, final, hfinal, hdone⟩ := ih hstep hrest fun later hlater =>
        ⟨hfirst later hlater, (hruns later (List.mem_cons_of_mem _ hlater)).2⟩
      refine ⟨last, final, ?_, ?_⟩
      · rw [List.foldlM_cons, hnext]
        exact hfinal
      · have hsame : (fun pixel => seen pixel ∨ Foreground (run :: runs) pixel) =
            fun pixel => (seen pixel ∨ run.start ≤ pixel ∧ pixel < stop run) ∨
              Foreground runs pixel := by
          funext pixel
          rw [or_assoc, ← propext foreground_cons]
        rw [hsame]
        exact hdone

/-! The order of the heap. -/

def StartSorted (runs : List RLEPair) : Prop :=
  runs.Pairwise fun run later => run.start ≤ later.start

theorem popLeast_none {cursors : List (List RLEPair)} (h : popLeast cursors = none) :
    cursors.flatten = [] := by
  induction cursors with
  | nil => rfl
  | cons cursor cursors ih =>
      cases cursor with
      | nil => exact ih h
      | cons run runs =>
          rw [popLeast] at h
          split at h
          · cases h
          · split at h <;> cases h

theorem popLeast_some {cursors rest : List (List RLEPair)}
    (hsorted : ∀ cursor ∈ cursors, StartSorted cursor) (h : popLeast cursors = some (run, rest)) :
    cursors.flatten.Perm (run :: rest.flatten) ∧
      (∀ other ∈ cursors.flatten, run.start ≤ other.start) ∧
        ∀ cursor ∈ rest, StartSorted cursor := by
  induction cursors generalizing run rest with
  | nil => cases h
  | cons cursor cursors ih =>
      have hothers : ∀ cursor ∈ cursors, StartSorted cursor := fun other hother =>
        hsorted other (List.mem_cons_of_mem _ hother)
      cases cursor with
      | nil => exact ih hothers h
      | cons own runs =>
          have hown := hsorted (own :: runs) List.mem_cons_self
          obtain ⟨hfirst, hruns⟩ := List.pairwise_cons.mp hown
          rw [popLeast] at h
          split at h
          next hnone =>
            cases h
            have hempty := popLeast_none hnone
            refine ⟨.refl _, fun other hother => ?_, fun cursor hcursor => ?_⟩
            · rw [List.flatten_cons, hempty, List.append_nil] at hother
              rcases List.mem_cons.mp hother with rfl | hlater
              · exact Nat.le_refl _
              · exact hfirst other hlater
            · rcases List.mem_cons.mp hcursor with rfl | hother
              · exact hruns
              · exact hothers cursor hother
          next least others hsome =>
            obtain ⟨hperm, hleast, hrest⟩ := ih hothers hsome
            split at h
            next hless =>
              cases h
              refine ⟨?_, fun other hother => ?_, fun cursor hcursor => ?_⟩
              · exact (hperm.append_left (own :: runs)).trans List.perm_middle
              · rcases List.mem_append.mp hother with hmine | hlater
                · rcases List.mem_cons.mp hmine with rfl | hlater
                  · exact hless.le
                  · exact hless.le.trans (hfirst other hlater)
                · exact hleast other hlater
              · rcases List.mem_cons.mp hcursor with rfl | hother
                · exact hown
                · exact hrest cursor hother
            next hge =>
              cases h
              have hle := Nat.not_lt.mp hge
              refine ⟨.refl _, fun other hother => ?_, fun cursor hcursor => ?_⟩
              · rcases List.mem_append.mp hother with hmine | hlater
                · rcases List.mem_cons.mp hmine with rfl | hlater
                  · exact Nat.le_refl _
                  · exact hfirst other hlater
                · exact hle.trans (hleast other hlater)
              · rcases List.mem_cons.mp hcursor with rfl | hother
                · exact hruns
                · exact hothers cursor hother

theorem heapOrder_spec {count : Nat} {cursors : List (List RLEPair)}
    (hcount : cursors.flatten.length = count) (hsorted : ∀ cursor ∈ cursors, StartSorted cursor) :
    (heapOrder count cursors).Perm cursors.flatten ∧ StartSorted (heapOrder count cursors) := by
  induction count generalizing cursors with
  | zero =>
      rw [List.length_eq_zero_iff.mp hcount]
      exact ⟨.refl _, .nil⟩
  | succ count ih =>
      rw [heapOrder]
      cases hpop : popLeast cursors with
      | none =>
          rw [popLeast_none hpop] at hcount
          cases hcount
      | some found =>
          obtain ⟨run, rest⟩ := found
          obtain ⟨hperm, hleast, hrest⟩ := popLeast_some hsorted hpop
          have hlength : rest.flatten.length = count := by
            have hboth := hperm.length_eq
            rw [hcount, List.length_cons] at hboth
            exact (Nat.succ.inj hboth).symm
          obtain ⟨hlater, hlaterSorted⟩ := ih hlength hrest
          refine ⟨(hlater.cons run).trans hperm.symm, List.pairwise_cons.mpr ⟨?_, hlaterSorted⟩⟩
          intro other hother
          exact hleast other (hperm.mem_iff.mpr (List.mem_cons_of_mem _ (hlater.mem_iff.mp hother)))

theorem mergeOrder_spec {merge : List (List RLEPair)}
    (hsorted : ∀ cursor ∈ merge, StartSorted cursor) :
    (mergeOrder merge).Perm merge.flatten ∧ StartSorted (mergeOrder merge) := by
  match merge with
  | [] => exact heapOrder_spec rfl hsorted
  | [runs] => exact ⟨by rw [List.flatten_singleton]; rfl, hsorted runs List.mem_cons_self⟩
  | first :: second :: rest => exact heapOrder_spec rfl hsorted

theorem Fits.startSorted (h : Fits pixels previous runs) : StartSorted runs := by
  have hapart := List.pairwise_map.mp h.ordered.apart
  refine hapart.imp_of_mem fun {run later} hrun _ hbefore => ?_
  have hvalid := h.ordered.valid _ (List.mem_map_of_mem hrun)
  exact (Nat.le_of_lt hvalid).trans hbefore

/-- The union of the masks, as few runs as can be. -/
theorem unite_spec {merge : List (List RLEPair)} (h : Sized width pixels)
    (hmerge : ∀ runs ∈ merge, Fits pixels 0 runs) :
    ∃ union, unite width merge = .ok union ∧
      Separated 1 (union.combined.map RLEPair.interval) ∧
      (∀ pixel, Foreground union.combined pixel ↔ ∃ runs ∈ merge, Foreground runs pixel) ∧
      TightBounds width (fun pixel => ∃ runs ∈ merge, Foreground runs pixel) union.bounds := by
  obtain ⟨hperm, hsorted⟩ := mergeOrder_spec fun runs hruns => (hmerge runs hruns).startSorted
  have hvalid : ∀ run ∈ mergeOrder merge, 0 ≤ run.start ∧ 0 < run.length ∧ stop run ≤ pixels := by
    intro run hrun
    obtain ⟨runs, hruns, hmem⟩ := List.mem_flatten.mp (hperm.mem_iff.mp hrun)
    have hpositive : run.start < run.start + run.length :=
      (hmerge runs hruns).ordered.valid _ (List.mem_map_of_mem hmem)
    exact ⟨Nat.zero_le _, by omega, ((hmerge runs hruns).within run hmem).2⟩
  obtain ⟨last, union, hunion, hunited⟩ := emitUnions_spec h (united_nil width) hsorted hvalid
  have hsame : ∀ pixel, (False ∨ Foreground (mergeOrder merge) pixel) ↔
      ∃ runs ∈ merge, Foreground runs pixel := by
    intro pixel
    rw [false_or]
    constructor
    · rintro ⟨interval, hinterval, hin⟩
      obtain ⟨run, hrun, rfl⟩ := List.mem_map.mp hinterval
      obtain ⟨runs, hruns, hmem⟩ := List.mem_flatten.mp (hperm.mem_iff.mp hrun)
      exact ⟨runs, hruns, run.interval, List.mem_map_of_mem hmem, hin⟩
    · rintro ⟨runs, hruns, interval, hinterval, hin⟩
      obtain ⟨run, hrun, rfl⟩ := List.mem_map.mp hinterval
      exact ⟨run.interval, List.mem_map_of_mem (hperm.mem_iff.mpr
        (List.mem_flatten.mpr ⟨runs, hruns, hrun⟩)), hin⟩
  exact ⟨union, hunion, hunited.separated, fun pixel => (hunited.covered pixel).trans (hsame pixel),
    hunited.bounds.congr hsame⟩

/-! The carving. -/

/-- What is left of a segment so far. -/
structure Carved (width : Nat) (seen : Nat → Prop) (carving : Carving) : Prop where
  ordered : Ordered (carving.scratch.map RLEPair.interval)
  covered : ∀ pixel, Foreground carving.scratch pixel ↔ seen pixel
  area : carving.area = totalLength (carving.scratch.map RLEPair.interval)
  bounds : TightBounds width seen carving.bounds

theorem carved_nil (width : Nat) : Carved width (fun _ => False) ⟨[], 0, {}⟩ :=
  ⟨.nil, fun _ => iff_of_false covered_nil not_false, rfl, .nothing⟩

theorem Carved.congr {carving : Carving} {others : Nat → Prop} (h : Carved width seen carving)
    (hsame : ∀ pixel, seen pixel ↔ others pixel) : Carved width others carving := by
  obtain rfl : seen = others := funext fun pixel => propext (hsame pixel)
  exact h

theorem emit_spec {carving : Carving} (h : Sized width pixels) (hcarved : Carved width seen carving)
    (hlt : first ≤ last) (hle : last ≤ pixels) (hbefore : ∀ pixel, seen pixel → pixel < first) :
    ∃ next, emit width carving first last = .ok next ∧
      Carved width (fun pixel => seen pixel ∨ first ≤ pixel ∧ pixel < last) next := by
  rw [emit]
  split
  next hsame =>
    refine ⟨carving, rfl, hcarved.congr fun pixel => (or_iff_left ?_).symm⟩
    omega
  next hne =>
    have hless : first < last := lt_of_le_of_ne hlt hne
    obtain ⟨hinclude, hbounds⟩ := h.include hcarved.bounds hless hle
    have hmap : (carving.scratch ++ [(⟨first, last - first⟩ : RLEPair)]).map RLEPair.interval =
        carving.scratch.map RLEPair.interval ++ [(first, last)] := by
      rw [List.map_append, List.map_singleton, RLEPair.interval, Nat.add_sub_cancel' hlt]
    rw [hinclude]
    refine ⟨_, rfl, ?_, fun pixel => ?_, ?_, hbounds⟩
    · dsimp only
      rw [hmap]
      refine hcarved.ordered.concat hless (hcarved.ordered.end_le fun pixel hpixel => ?_)
      exact hbefore pixel ((hcarved.covered pixel).mp hpixel)
    · rw [Foreground, hmap, covered_concat]
      exact or_congr_left (hcarved.covered pixel)
    · dsimp only
      rw [hmap, hcarved.area, totalLength, totalLength, List.map_append, List.sum_append]
      rfl

/-- What the cuts leave of a run from the cursor on: the rest is emitted or still to be. -/
theorem cutRun_spec {carving : Carving} {cursor : Nat} {cuts : List RLEPair}
    (h : Sized width pixels) (hcarved : Carved width seen carving) (hcursor : cursor ≤ last)
    (hlast : last ≤ pixels) (hbefore : ∀ pixel, seen pixel → pixel < cursor)
    (hcuts : Ordered (cuts.map RLEPair.interval)) :
    ∃ next after left, cutRun width last carving cursor cuts = .ok (next, after, left) ∧
      Carved width (fun pixel => seen pixel ∨
        (cursor ≤ pixel ∧ pixel < after) ∧ ¬ Foreground cuts pixel) next ∧
      cursor ≤ after ∧ after ≤ last ∧
      (∀ pixel, after ≤ pixel → pixel < last → ¬ Foreground cuts pixel) ∧
      Ordered (left.map RLEPair.interval) ∧
      ∀ pixel, last ≤ pixel → (Foreground left pixel ↔ Foreground cuts pixel) := by
  induction cuts generalizing carving cursor seen with
  | nil =>
      refine ⟨carving, cursor, [], rfl, hcarved.congr fun pixel => (or_iff_left ?_).symm,
        Nat.le_refl _, hcursor, fun pixel _ _ => covered_nil, .nil, fun _ _ => Iff.rfl⟩
      omega
  | cons cut cuts ih =>
      obtain ⟨hvalid, hlater, hrest⟩ := Ordered.cons_iff.mp hcuts
      have hcut : cut.start < stop cut := hvalid
      rw [cutRun]
      split
      next hafter =>
        refine ⟨carving, cursor, cut :: cuts, rfl, hcarved.congr fun pixel => (or_iff_left ?_).symm,
          Nat.le_refl _, hcursor, fun pixel _ hless hcovered => ?_, hcuts, fun _ _ => Iff.rfl⟩
        · omega
        · have hge : cut.start ≤ pixel := hcuts.head_ge hcovered
          omega
      next hmeets =>
        rw [not_le] at hmeets
        split
        next hpassed =>
          -- The cut ends before the cursor.
          have hsame : ∀ pixel, cursor ≤ pixel →
              (Foreground (cut :: cuts) pixel ↔ Foreground cuts pixel) := by
            intro pixel hpixel
            rw [foreground_cons, or_iff_right]
            omega
          obtain ⟨next, after, left, hcutRun, hnext, hge, hle, hclear, hleft, hleftSame⟩ :=
            ih hcarved hcursor hbefore hrest
          refine ⟨next, after, left, hcutRun, hnext.congr fun pixel => or_congr_right
            (and_congr_right fun hpixel => not_congr (hsame pixel hpixel.1).symm), hge, hle,
            fun pixel hfrom hless => ?_, hleft, fun pixel hpixel => ?_⟩
          · rw [hsame pixel (hge.trans hfrom)]
            exact hclear pixel hfrom hless
          · rw [hleftSame pixel hpixel, hsame pixel (hcursor.trans hpixel)]
        next hahead =>
          rw [not_le] at hahead
          obtain ⟨emitted, hemit, hemitted⟩ := emit_spec h hcarved
            (Nat.le_max_left cursor cut.start) (by omega) hbefore
          have hgap : ∀ pixel, pixel < min last (stop cut) →
              ((cursor ≤ pixel ∧ pixel < max cursor cut.start) ↔
                (cursor ≤ pixel ∧ ¬ Foreground (cut :: cuts) pixel)) := by
            intro pixel hpixel
            have hnotLater : ¬ Foreground cuts pixel := fun hcovered =>
              absurd (hcuts.tail_ge hcovered) (by
                change ¬ stop cut ≤ pixel
                omega)
            rw [foreground_cons, or_iff_left hnotLater]
            omega
          rw [hemit]
          change ∃ next after left, (if last ≤ stop cut then _ else _) = _ ∧ _
          split
          next hbeyond =>
            refine ⟨emitted, min last (stop cut), cut :: cuts, rfl, hemitted.congr fun pixel =>
              or_congr_right ?_, by omega, by omega, fun pixel hfrom hless => by omega, hcuts,
              fun _ _ => Iff.rfl⟩
            constructor
            · intro hin
              have hpixel : pixel < min last (stop cut) := by omega
              have hout := (hgap pixel hpixel).mp hin
              exact ⟨⟨hout.1, hpixel⟩, hout.2⟩
            · intro hin
              exact (hgap pixel hin.1.2).mpr ⟨hin.1.1, hin.2⟩
          next hinside =>
            rw [not_le] at hinside
            have hmin : min last (stop cut) = stop cut := by omega
            rw [hmin] at hgap ⊢
            have hbehind : ∀ pixel, stop cut ≤ pixel →
                (Foreground (cut :: cuts) pixel ↔ Foreground cuts pixel) := by
              intro pixel hpixel
              rw [foreground_cons, or_iff_right]
              omega
            have hemittedBefore : ∀ pixel, (seen pixel ∨
                cursor ≤ pixel ∧ pixel < max cursor cut.start) → pixel < stop cut := by
              rintro pixel (hold | hnew)
              · have hless := hbefore pixel hold
                omega
              · omega
            obtain ⟨next, after, left, hcutRun, hnext, hge, hle, hclear, hleft, hleftSame⟩ :=
              ih hemitted hinside.le hemittedBefore hrest
            refine ⟨next, after, left, hcutRun, hnext.congr fun pixel => ?_, by omega, hle,
              fun pixel hfrom hless => ?_, hleft, fun pixel hpixel => ?_⟩
            · rw [or_assoc]
              refine or_congr_right ⟨?_, ?_⟩
              · rintro (hin | ⟨hin, hnot⟩)
                · have hpixel : pixel < stop cut := by omega
                  have hout := (hgap pixel hpixel).mp hin
                  exact ⟨⟨hout.1, by omega⟩, hout.2⟩
                · exact ⟨⟨by omega, hin.2⟩, (hbehind pixel hin.1).not.mpr hnot⟩
              · intro ⟨hin, hnot⟩
                rcases Nat.lt_or_ge pixel (stop cut) with hpixel | hpixel
                · exact .inl ((hgap pixel hpixel).mpr ⟨hin.1, hnot⟩)
                · exact .inr ⟨⟨hpixel, hin.2⟩, (hbehind pixel hpixel).not.mp hnot⟩
            · rw [hbehind pixel (hge.trans hfrom)]
              exact hclear pixel hfrom hless
            · rw [hleftSame pixel hpixel, hbehind pixel (by omega)]

theorem cutRuns_spec {carving : Carving} {cuts : List RLEPair} (h : Sized width pixels)
    (hcarved : Carved width seen carving) (hfits : Fits pixels previous runs)
    (hbefore : ∀ pixel, seen pixel → pixel < previous)
    (hcuts : Ordered (cuts.map RLEPair.interval)) :
    ∃ final, cutRuns width carving cuts runs = .ok final ∧
      Carved width (fun pixel => seen pixel ∨ Foreground runs pixel ∧ ¬ Foreground cuts pixel)
        final := by
  induction runs generalizing carving cuts seen previous with
  | nil =>
      refine ⟨carving, rfl, hcarved.congr fun pixel => (or_iff_left fun hin => ?_).symm⟩
      exact covered_nil hin.1
  | cons run runs ih =>
      obtain ⟨hhead, hrest⟩ := fits_cons.mp hfits
      rw [not_or, not_or, not_lt, not_lt] at hhead
      have hrun : run.start < stop run := Nat.lt_add_of_pos_right (Nat.pos_of_ne_zero hhead.1)
      obtain ⟨cut, after, left, hcut, hcutCarved, hge, hle, hclear, hleft, hleftSame⟩ :=
        cutRun_spec h hcarved hrun.le hhead.2.2
          (fun pixel hpixel => (hbefore pixel hpixel).trans_le hhead.2.1) hcuts
      have hcutBefore : ∀ pixel, (seen pixel ∨
          (run.start ≤ pixel ∧ pixel < after) ∧ ¬ Foreground cuts pixel) → pixel < after := by
        rintro pixel (hold | hnew)
        · have hless := hbefore pixel hold
          omega
        · exact hnew.1.2
      obtain ⟨emitted, hemit, hemitted⟩ := emit_spec h hcutCarved hle hhead.2.2 hcutBefore
      have hwhole : ∀ pixel, ((seen pixel ∨
          (run.start ≤ pixel ∧ pixel < after) ∧ ¬ Foreground cuts pixel) ∨
            after ≤ pixel ∧ pixel < stop run) ↔
          seen pixel ∨ (run.start ≤ pixel ∧ pixel < stop run) ∧ ¬ Foreground cuts pixel := by
        intro pixel
        rw [or_assoc]
        refine or_congr_right ⟨?_, fun ⟨hin, hnot⟩ => ?_⟩
        · rintro (⟨hin, hnot⟩ | hin)
          · exact ⟨by omega, hnot⟩
          · exact ⟨by omega, hclear pixel hin.1 hin.2⟩
        · rcases Nat.lt_or_ge pixel after with hpixel | hpixel
          · exact .inl ⟨⟨hin.1, hpixel⟩, hnot⟩
          · exact .inr ⟨hpixel, hin.2⟩
      have hseen : ∀ pixel, (seen pixel ∨
          (run.start ≤ pixel ∧ pixel < stop run) ∧ ¬ Foreground cuts pixel) →
            pixel < stop run := by
        rintro pixel (hold | hnew)
        · have hless := hbefore pixel hold
          omega
        · exact hnew.1.2
      obtain ⟨final, hfinal, hdone⟩ := ih (hemitted.congr hwhole) hrest hseen hleft
      refine ⟨final, ?_, hdone.congr fun pixel => ?_⟩
      · rw [cutRuns, hcut]
        change emit width cut after (stop run) >>= _ = _
        rw [hemit]
        exact hfinal
      · rw [or_assoc, foreground_cons, or_and_right]
        refine or_congr_right (or_congr_right (and_congr_right fun hin => ?_))
        obtain ⟨interval, hinterval, hinside⟩ := hin
        obtain ⟨later, hlater, rfl⟩ := List.mem_map.mp hinterval
        exact not_congr (hleftSame pixel ((hrest.within later hlater).1.trans hinside.1))

/-- Cuts that end before the first run cut nothing. -/
theorem dropWhile_cuts {cuts : List RLEPair} (hcuts : Ordered (cuts.map RLEPair.interval)) :
    Ordered ((cuts.dropWhile fun cut => stop cut ≤ first).map RLEPair.interval) ∧
      ∀ pixel, first ≤ pixel →
        (Foreground (cuts.dropWhile fun cut => stop cut ≤ first) pixel ↔ Foreground cuts pixel) := by
  induction cuts with
  | nil => exact ⟨hcuts, fun _ _ => Iff.rfl⟩
  | cons cut cuts ih =>
      obtain ⟨-, -, hrest⟩ := Ordered.cons_iff.mp hcuts
      obtain ⟨hordered, hsame⟩ := ih hrest
      rw [List.dropWhile_cons]
      split
      next hpassed =>
        refine ⟨hordered, fun pixel hpixel => (hsame pixel hpixel).trans ?_⟩
        rw [foreground_cons, or_iff_right]
        have hle := of_decide_eq_true hpassed
        omega
      next => exact ⟨hcuts, fun _ _ => Iff.rfl⟩

/-- What a segment is after the carving: its pixels without the recovered ones. -/
structure CarvedFrom (width pixels : Nat) (recovered : Nat → Prop) (support after : Support) :
    Prop where
  held : Held width pixels after
  pixels : ∀ pixel, Foreground after.runs.view pixel ↔
    Foreground support.runs.view pixel ∧ ¬ recovered pixel
  carved : after.carved = true ↔
    ∃ pixel, Foreground support.runs.view pixel ∧ recovered pixel
  recovered : after.recovered = none
  valid : after.valid = support.valid

/-- A segment without recovered pixels stays as it is. -/
theorem CarvedFrom.same {recovered : Nat → Prop} {support : Support} (hheld : Held width pixels support)
    (hcarved : support.carved = false) (hrecovered : support.recovered = none)
    (hclear : ∀ pixel, Foreground support.runs.view pixel → ¬ recovered pixel) :
    CarvedFrom width pixels recovered support support :=
  ⟨hheld, fun pixel => (and_iff_left_of_imp (hclear pixel)).symm, by
    rw [hcarved]
    exact iff_of_false Bool.false_ne_true fun ⟨pixel, hin, hout⟩ => hclear pixel hin hout,
    hrecovered, rfl⟩

theorem carve_spec {union : Union} {segment : CoconutRecordSegment} {support : Support}
    (h : Sized width pixels) (hheld : Held width pixels support)
    (hthing : segment.isthing = true) (hcarved : support.carved = false)
    (hrecovered : support.recovered = none)
    (hunion : Separated 1 (union.combined.map RLEPair.interval))
    (hbounds : TightBounds width (Foreground union.combined) union.bounds) :
    ∃ after, carve width union segment support = .ok after ∧
      CarvedFrom width pixels (Foreground union.combined) support after := by
  rw [carve]
  split
  next hnil =>
    refine ⟨support, rfl, .same hheld hcarved hrecovered fun pixel hpixel => ?_⟩
    rw [hnil] at hpixel
    exact (covered_nil hpixel).elim
  next front runs hview =>
    split
    next hskip =>
      rw [hthing, hrecovered] at hskip
      have hapart : apart support.bounds union.bounds = true := by simpa using hskip
      exact ⟨support, rfl, .same hheld hcarved hrecovered fun pixel hin hout =>
        not_shared_of_apart hheld.bounds hbounds hapart ⟨hin, hout⟩⟩
    next =>
      have hfits := hview ▸ hheld.fits
      obtain ⟨hcuts, hsame⟩ := @dropWhile_cuts front.start _ (Ordered.of_separated hunion)
      obtain ⟨carving, hcutRuns, hdone⟩ := cutRuns_spec h (carved_nil width) hfits nofun hcuts
      have hleft : ∀ pixel, Foreground carving.scratch pixel ↔
          Foreground support.runs.view pixel ∧ ¬ Foreground union.combined pixel := by
        intro pixel
        rw [hdone.covered, false_or, hview]
        refine and_congr_right fun hin => not_congr (hsame pixel ?_)
        exact hfits.ordered.head_ge hin
      dsimp only
      rw [hcutRuns]
      change ∃ after, (if carving.area = support.area then _ else _) = _ ∧ _
      split
      next harea =>
        -- As many pixels are left as there were, so all of them are.
        refine ⟨support, rfl, .same hheld hcarved hrecovered fun pixel hin hout => ?_⟩
        rw [hdone.area, hheld.area, hdone.ordered.totalLength_eq, hheld.fits.ordered.totalLength_eq]
          at harea
        have hall := Set.eq_of_subset_of_ncard_le
          (fun pixel (hpixel : Foreground carving.scratch pixel) => ((hleft pixel).mp hpixel).1)
          harea.ge (Ordered.finite _)
        exact ((hleft pixel).mp (hall.symm.subset hin)).2 hout
      next hne =>
        refine ⟨_, rfl, ⟨⟨hdone.ordered, fun run hrun => ⟨Nat.zero_le _, ?_⟩⟩, hdone.area,
          hdone.bounds.congr fun pixel => (hdone.covered pixel).symm⟩, hleft, iff_of_true rfl ?_,
          hrecovered, rfl⟩
        · have hbelow := hdone.ordered.end_le fun pixel (hpixel : Foreground carving.scratch pixel) =>
            hheld.fits.lt ((hleft pixel).mp hpixel).1
          exact hbelow run.interval (List.mem_map_of_mem hrun)
        · by_contra hnone
          refine hne ?_
          rw [hdone.area, hheld.area, hdone.ordered.totalLength_eq,
            hheld.fits.ordered.totalLength_eq]
          congr 1
          refine Set.ext fun pixel => (hleft pixel).trans (and_iff_left_of_imp fun hin hout => ?_)
          exact hnone ⟨pixel, hin, hout⟩

end CoconutMaskRecovery

end Mmltk.Coconut
