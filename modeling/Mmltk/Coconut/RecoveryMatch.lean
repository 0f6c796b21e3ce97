import Mmltk.Coconut.RecoveryGroups

namespace Mmltk.Coconut

open Mmltk.Dataset (RLEPair MaskError TightBounds Foreground)

/-! Which group is recovered, and from which candidates. -/

namespace CoconutMaskRecovery

theorem soleMatch_found (support : Support) (position found : Nat) (candidates : List Candidate)
    (sole : Nat) : soleMatch support position (some found) candidates = some sole ↔
      sole = found ∧ ∀ candidate ∈ candidates, intersects support candidate = false := by
  induction candidates generalizing position with
  | nil =>
      rw [soleMatch, Option.some_inj]
      exact ⟨fun h => ⟨h.symm, nofun⟩, fun h => h.1.symm⟩
  | cons candidate candidates ih =>
      rw [soleMatch, List.forall_mem_cons]
      split
      next hnot =>
        rw [ih, Bool.not_eq_true] at *
        rw [and_iff_right hnot]
      next hhit =>
        rw [not_not] at hhit
        rw [hhit]
        exact ⟨nofun, fun h => nomatch h.2.1⟩

/-- The one candidate that shares a pixel, by its position. -/
def SoleAt (support : Support) (candidates : List Candidate) (position : Nat) : Prop :=
  (∃ candidate, candidates[position]? = some candidate ∧ intersects support candidate = true) ∧
    ∀ other candidate, candidates[other]? = some candidate → intersects support candidate = true →
      other = position

theorem soleMatch_iff (support : Support) (start : Nat) (candidates : List Candidate) (sole : Nat) :
    soleMatch support start none candidates = some sole ↔
      ∃ position, sole = start + position ∧ SoleAt support candidates position := by
  induction candidates generalizing start with
  | nil =>
      rw [soleMatch]
      refine ⟨nofun, ?_⟩
      rintro ⟨position, -, ⟨candidate, hcandidate, -⟩, -⟩
      cases hcandidate
  | cons candidate candidates ih =>
      rw [soleMatch]
      split
      next hnot =>
        rw [ih]
        constructor
        · rintro ⟨position, rfl, ⟨found, hfound, hhit⟩, honly⟩
          refine ⟨position + 1, by omega, ⟨found, hfound, hhit⟩, fun other next hnext hother => ?_⟩
          cases other with
          | zero =>
              cases hnext
              exact absurd hother hnot
          | succ other => rw [honly other next hnext hother]
        · rintro ⟨position, rfl, ⟨found, hfound, hhit⟩, honly⟩
          cases position with
          | zero =>
              cases hfound
              exact absurd hhit hnot
          | succ position =>
              exact ⟨position, by omega, ⟨found, hfound, hhit⟩, fun other next hnext hother =>
                Nat.succ.inj (honly (other + 1) next hnext hother)⟩
      next hhit =>
        rw [not_not] at hhit
        rw [soleMatch_found]
        constructor
        · rintro ⟨rfl, hnone⟩
          refine ⟨0, rfl, ⟨candidate, rfl, hhit⟩, fun other next hnext hother => ?_⟩
          cases other with
          | zero => rfl
          | succ other =>
              rw [hnone next (List.mem_of_getElem? hnext)] at hother
              cases hother
        · rintro ⟨position, rfl, -, honly⟩
          obtain rfl := honly 0 candidate rfl hhit
          refine ⟨rfl, fun next hnext => Bool.eq_false_iff.mpr fun hother => ?_⟩
          obtain ⟨other, hslot⟩ := List.getElem?_of_mem hnext
          exact nomatch honly (other + 1) next hslot hother

/-- The candidate that stands for a survivor. -/
def sole (support : List Support) (candidates : List Candidate) (ordinal : Nat) : Option Nat :=
  support[ordinal]?.bind fun segment =>
    if segment.runs.view = [] then none else soleMatch segment 0 none candidates

theorem sole_iff {support : List Support} {candidates : List Candidate} {ordinal position : Nat} :
    sole support candidates ordinal = some position ↔
      ∃ segment, support[ordinal]? = some segment ∧ segment.runs.view ≠ [] ∧
        SoleAt segment candidates position := by
  rw [sole, Option.bind_eq_some_iff]
  refine exists_congr fun segment => and_congr_right fun _ => ?_
  split
  next hnil => exact ⟨nofun, fun h => absurd hnil h.1⟩
  next hsome =>
    rw [soleMatch_iff, and_iff_right hsome]
    constructor
    · rintro ⟨other, rfl, hsole⟩
      rwa [Nat.zero_add]
    · exact fun hsole => ⟨position, (Nat.zero_add _).symm, hsole⟩

/-- Positions are taken, each of them once. -/
def take : List Bool → List Nat → Option (List Bool)
  | represented, [] => some represented
  | represented, position :: positions =>
      if represented.getD position true then none else take (represented.set position true) positions

theorem represent_eq (support : List Support) (candidates : List Candidate)
    (represented : List Bool) (survivors : List Nat) :
    represent support candidates represented survivors =
      (survivors.mapM (sole support candidates)).bind (take represented) := by
  induction survivors generalizing represented with
  | nil => rfl
  | cons ordinal survivors ih =>
      rw [represent, List.mapM_cons, sole]
      cases support[ordinal]? with
      | none => rfl
      | some segment =>
          dsimp only [Option.bind_some]
          split
          next => rfl
          next =>
            cases soleMatch segment 0 none candidates with
            | none => rfl
            | some position =>
                dsimp only
                rw [ih]
                cases survivors.mapM (sole support candidates) with
                | none => split <;> rfl
                | some positions => rfl

theorem take_iff {represented final : List Bool} {positions : List Nat} :
    take represented positions = some final ↔ positions.Nodup ∧
      (∀ position ∈ positions, represented[position]? = some false) ∧
        final = positions.foldl (fun represented position => represented.set position true)
          represented := by
  induction positions generalizing represented with
  | nil =>
      rw [take, Option.some_inj]
      exact ⟨fun h => ⟨.nil, nofun, h.symm⟩, fun h => h.2.2.symm⟩
  | cons position positions ih =>
      have hfree : represented.getD position true = false ↔ represented[position]? = some false := by
        rw [List.getD_eq_getElem?_getD]
        cases represented[position]? with
        | none => simp
        | some value => simp
      rw [take, List.nodup_cons, List.forall_mem_cons, List.foldl_cons]
      split
      next htaken =>
        rw [← hfree, htaken]
        exact ⟨nofun, fun h => nomatch h.2.1.1⟩
      next hopen =>
        rw [Bool.not_eq_true, hfree] at hopen
        rw [ih]
        have hslot : position < represented.length := (List.getElem?_eq_some_iff.mp hopen).1
        constructor
        · rintro ⟨hnodup, hothers, hfinal⟩
          refine ⟨⟨fun hmem => ?_, hnodup⟩, ⟨hopen, fun other hother => ?_⟩, hfinal⟩
          · have hset := hothers position hmem
            rw [List.getElem?_set_self hslot] at hset
            cases hset
          · have hset := hothers other hother
            rcases eq_or_ne position other with rfl | hne
            · rw [List.getElem?_set_self hslot] at hset
              cases hset
            · rwa [List.getElem?_set_ne hne] at hset
        · rintro ⟨⟨hnot, hnodup⟩, ⟨-, hothers⟩, hfinal⟩
          refine ⟨hnodup, fun other hother => ?_, hfinal⟩
          rw [List.getElem?_set_ne fun (hsame : position = other) => hnot (hsame ▸ hother)]
          exact hothers other hother

theorem foldl_set_true {represented : List Bool} {positions : List Nat} {slot : Nat}
    (hslot : slot < represented.length) :
    (positions.foldl (fun represented position => represented.set position true)
      represented)[slot]? = some true ↔ represented[slot]? = some true ∨ slot ∈ positions := by
  induction positions generalizing represented with
  | nil => exact (or_iff_left List.not_mem_nil).symm
  | cons position positions ih =>
      rw [List.foldl_cons, ih (by rwa [List.length_set]), List.mem_cons, ← or_assoc]
      refine or_congr_left ?_
      rcases eq_or_ne position slot with rfl | hne
      · rw [List.getElem?_set_self hslot]
        exact iff_of_true rfl (.inr rfl)
      · rw [List.getElem?_set_ne hne, or_iff_left hne.symm]

theorem length_foldl_set (represented : List Bool) (positions : List Nat) :
    (positions.foldl (fun represented position => represented.set position true)
      represented).length = represented.length := by
  induction positions generalizing represented with
  | nil => rfl
  | cons position positions ih => rw [List.foldl_cons, ih, List.length_set]

theorem count_foldl_set {represented : List Bool} {positions : List Nat} (hnodup : positions.Nodup)
    (hfree : ∀ position ∈ positions, represented[position]? = some false) :
    (positions.foldl (fun represented position => represented.set position true)
      represented).count false + positions.length = represented.count false := by
  induction positions generalizing represented with
  | nil => rfl
  | cons position positions ih =>
      obtain ⟨hnot, hrest⟩ := List.nodup_cons.mp hnodup
      obtain ⟨hhere, hothers⟩ := List.forall_mem_cons.mp hfree
      obtain ⟨hslot, hvalue⟩ := List.getElem?_eq_some_iff.mp hhere
      have hlaterFree : ∀ other ∈ positions, (represented.set position true)[other]? = some false := by
        intro other hother
        rw [List.getElem?_set_ne fun (hsame : position = other) => hnot (hsame ▸ hother)]
        exact hothers other hother
      have hlater := ih hrest hlaterFree
      have hpositive : 0 < represented.count false :=
        List.count_pos_iff.mpr (hvalue ▸ List.getElem_mem hslot)
      have hcount : (represented.set position true).count false = represented.count false - 1 := by
        rw [List.count_set hslot, hvalue]
        rfl
      rw [List.foldl_cons, List.length_cons]
      omega

theorem mapM_eq_some_iff {α β : Type} {find : α → Option β} {items : List α} {found : List β} :
    items.mapM find = some found ↔ items.map find = found.map some := by
  induction items generalizing found with
  | nil =>
      rw [List.mapM_nil, List.map_nil]
      change some [] = some found ↔ _
      cases found with
      | nil => exact iff_of_true rfl rfl
      | cons => exact ⟨nofun, nofun⟩
  | cons item items ih =>
      rw [List.mapM_cons, List.map_cons]
      cases hfind : find item with
      | none =>
          refine ⟨nofun, fun h => ?_⟩
          cases found with
          | nil => cases h
          | cons => cases h
      | some value =>
          cases hrest : items.mapM find with
          | none =>
              refine ⟨nofun, fun h => ?_⟩
              cases found with
              | nil => cases h
              | cons next rest =>
                  rw [ih.mpr (List.cons.inj h).2] at hrest
                  cases hrest
          | some others =>
              have hothers := ih.mp hrest
              change some (value :: others) = some found ↔ _
              rw [hothers]
              constructor
              · intro h
                rw [← Option.some.inj h]
                rfl
              · intro h
                have hmap : (value :: others).map some = found.map some := h
                exact congrArg some (List.map_injective_iff.mpr (Option.some_injective _) hmap)

/-- Whether a candidate shares a pixel with one of the survivors. -/
def standsFor (support : List Support) (survivors : List Nat) (candidate : Candidate) : Bool :=
  survivors.any fun ordinal => support[ordinal]?.any fun segment => intersects segment candidate

/-- Each survivor has a candidate of its own. -/
def Represented (support : List Support) (candidates : List Candidate) (survivors : List Nat) :
    Prop :=
  (∀ ordinal ∈ survivors, ∃ position, sole support candidates ordinal = some position) ∧
    survivors.Pairwise fun ordinal other =>
      sole support candidates ordinal ≠ sole support candidates other

variable {support : List Support} {candidates : List Candidate} {survivors positions : List Nat}

theorem represented_iff : Represented support candidates survivors ↔
    ∃ positions : List Nat, survivors.map (sole support candidates) = positions.map some ∧
      positions.Nodup := by
  have hpairwise : (survivors.map (sole support candidates)).Nodup ↔
      survivors.Pairwise fun ordinal other =>
        sole support candidates ordinal ≠ sole support candidates other := List.pairwise_map
  constructor
  · intro ⟨hall, hapart⟩
    have hpositions : survivors.map (sole support candidates) =
        (survivors.map fun ordinal => (sole support candidates ordinal).getD 0).map some := by
      rw [List.map_map]
      refine List.map_congr_left fun ordinal hordinal => ?_
      obtain ⟨position, hposition⟩ := hall ordinal hordinal
      rw [Function.comp_apply, hposition]
      rfl
    refine ⟨_, hpositions, List.Nodup.of_map some ?_⟩
    rw [← hpositions]
    exact hpairwise.mpr hapart
  · intro ⟨positions, hpositions, hnodup⟩
    refine ⟨fun ordinal hordinal => ?_, hpairwise.mp ?_⟩
    · have hmem : sole support candidates ordinal ∈ positions.map some :=
        hpositions ▸ List.mem_map_of_mem hordinal
      obtain ⟨position, -, hposition⟩ := List.mem_map.mp hmem
      exact ⟨position, hposition.symm⟩
    · rw [hpositions]
      exact hnodup.map (Option.some_injective _)

theorem mem_positions (h : survivors.map (sole support candidates) = positions.map some)
    (position : Nat) : position ∈ positions ↔
      ∃ ordinal ∈ survivors, sole support candidates ordinal = some position := by
  rw [← List.mem_map, h, List.mem_map]
  exact ⟨fun hmem => ⟨position, hmem, rfl⟩, fun ⟨other, hother, hsame⟩ =>
    Option.some.inj hsame ▸ hother⟩

theorem position_lt (h : survivors.map (sole support candidates) = positions.map some) :
    ∀ position ∈ positions, position < candidates.length := by
  intro position hposition
  obtain ⟨ordinal, -, hordinal⟩ := (mem_positions h position).mp hposition
  obtain ⟨segment, -, -, ⟨candidate, hcandidate, -⟩, -⟩ := sole_iff.mp hordinal
  exact (List.getElem?_eq_some_iff.mp hcandidate).1

/-- A candidate stands for a survivor if its position is taken. -/
theorem standsFor_iff (h : survivors.map (sole support candidates) = positions.map some)
    {slot : Nat} {candidate : Candidate} (hslot : candidates[slot]? = some candidate) :
    standsFor support survivors candidate = true ↔ slot ∈ positions := by
  rw [mem_positions h, standsFor, List.any_eq_true]
  refine exists_congr fun ordinal => and_congr_right fun hordinal => ?_
  rw [sole_iff, Option.any_eq_true]
  constructor
  · rintro ⟨segment, hsegment, hhit⟩
    have hmem : sole support candidates ordinal ∈ positions.map some :=
      h ▸ List.mem_map_of_mem hordinal
    obtain ⟨position, -, hposition⟩ := List.mem_map.mp hmem
    obtain ⟨found, hfound, hruns, hsole⟩ := sole_iff.mp hposition.symm
    obtain rfl := Option.some.inj (hsegment.symm.trans hfound)
    rw [hsole.2 slot candidate hslot hhit]
    exact ⟨segment, hsegment, hruns, hsole⟩
  · rintro ⟨segment, hsegment, -, ⟨found, hfound, hhit⟩, -⟩
    obtain rfl := Option.some.inj (hslot.symm.trans hfound)
    exact ⟨segment, hsegment, hhit⟩

theorem marked_eq (h : survivors.map (sole support candidates) = positions.map some) :
    positions.foldl (fun represented position => represented.set position true)
      (List.replicate candidates.length false) = candidates.map (standsFor support survivors) := by
  refine List.ext_getElem (by rw [length_foldl_set, List.length_replicate, List.length_map])
    fun slot hslot hmapped => ?_
  have hinside : slot < candidates.length := by rwa [List.length_map] at hmapped
  have htaken := (@foldl_set_true (List.replicate candidates.length false) positions slot) (by rwa [List.length_replicate])
  rw [List.getElem?_eq_getElem hslot, Option.some_inj, List.getElem?_replicate_of_lt hinside,
    or_iff_right (by simp), ← standsFor_iff h (List.getElem?_eq_getElem hinside)] at htaken
  rw [List.getElem_map]
  exact Bool.eq_iff_iff.mpr htaken

/-- The candidates that stand for survivors are known if each survivor has one of its own. -/
theorem represent_spec :
    (Represented support candidates survivors →
      represent support candidates (List.replicate candidates.length false) survivors =
          some (candidates.map (standsFor support survivors)) ∧
        (candidates.map (standsFor support survivors)).count false + survivors.length =
          candidates.length) ∧
    (¬ Represented support candidates survivors →
      represent support candidates (List.replicate candidates.length false) survivors = none) := by
  rw [represented_iff, represent_eq]
  constructor
  · intro ⟨positions, hpositions, hnodup⟩
    have hfree : ∀ position ∈ positions,
        (List.replicate candidates.length false)[position]? = some false := fun position hposition =>
      List.getElem?_replicate_of_lt (position_lt hpositions position hposition)
    have hcount := count_foldl_set hnodup hfree
    have hlength : positions.length = survivors.length := by
      rw [← List.length_map some, ← hpositions, List.length_map]
    rw [marked_eq hpositions, List.count_replicate_self, hlength] at hcount
    refine ⟨?_, hcount⟩
    rw [mapM_eq_some_iff.mpr hpositions, Option.bind_some, take_iff]
    exact ⟨hnodup, hfree, (marked_eq hpositions).symm⟩
  · intro hnot
    refine Option.eq_none_iff_forall_ne_some.mpr fun final hfinal => hnot ?_
    obtain ⟨positions, hpositions, htake⟩ := Option.bind_eq_some_iff.mp hfinal
    exact ⟨positions, mapM_eq_some_iff.mp hpositions, (take_iff.mp htake).1⟩

/-! The masks, the identities and what is left. -/

/-- A box with its mask, as a candidate. -/
def fillBox (index : NormalizedAnnotationIndex) (width height slot : Nat) (box : NormalizedBox) :
    Candidate :=
  (candidateMask index width height (fresh slot box)).toOption.join.getD (fresh slot box)

section

variable {index : NormalizedAnnotationIndex} {width height slot : Nat} {boxes : List NormalizedBox}

theorem fillBox_eq (h : Sized width (width * height)) {box : NormalizedBox}
    (hvalid : ValidMask index (width * height) box) :
    candidateMask index width height (fresh slot box) =
        .ok (some (fillBox index width height slot box)) ∧
      Filled index width (fresh slot box) (fillBox index width height slot box) := by
  obtain ⟨filled, hfilled, hspec⟩ := (candidateMask_spec h box).1 hvalid
  have heq : fillBox index width height slot box = filled := by
    rw [fillBox, hfilled, Except.toOption, Option.join_some, Option.getD_some]
  exact ⟨heq ▸ hfilled, heq ▸ hspec⟩

theorem candidateMasks_spec (h : Sized width (width * height)) :
    ((∀ box ∈ boxes, ValidMask index (width * height) box) →
      candidateMasks index width height (boxes.map (fresh slot)) =
        .ok (some (boxes.map (fillBox index width height slot)))) ∧
    (¬ (∀ box ∈ boxes, ValidMask index (width * height) box) →
      candidateMasks index width height (boxes.map (fresh slot)) = .ok none) := by
  induction boxes with
  | nil => exact ⟨fun _ => rfl, fun hnot => absurd (fun _ => nofun) hnot⟩
  | cons box boxes ih =>
      rw [List.map_cons, candidateMasks, List.forall_mem_cons]
      cases Classical.em (ValidMask index (width * height) box) with
      | inl hvalid =>
          rw [(fillBox_eq h hvalid).1]
          dsimp only [bind, Except.bind]
          refine ⟨fun hall => ?_, fun hnot => ?_⟩
          · rw [ih.1 hall.2]
            dsimp only [pure, Except.pure]
            rw [Option.map_some, List.map_cons]
          · rw [ih.2 fun hrest => hnot ⟨hvalid, hrest⟩]
            dsimp only [pure, Except.pure]
            rw [Option.map_none]
      | inr hinvalid =>
          rw [(candidateMask_spec h box).2 hinvalid]
          exact ⟨fun hall => absurd hall.1 hinvalid, fun _ => rfl⟩

theorem adjacentDistinct_iff {values : List Nat} (hsorted : values.Pairwise (· ≤ ·)) :
    adjacentDistinct values = true ↔ values.Pairwise (· < ·) := by
  induction values with
  | nil => exact iff_of_true rfl .nil
  | cons first rest ih =>
      obtain ⟨hfirst, hrest⟩ := List.pairwise_cons.mp hsorted
      cases rest with
      | nil => exact iff_of_true rfl (List.pairwise_singleton _ _)
      | cons second rest =>
          rw [adjacentDistinct, Bool.and_eq_true, bne_iff_ne, ih hrest,
            List.pairwise_cons (a := first)]
          refine and_congr_left fun hless => ⟨fun hne value hvalue => ?_, fun hall =>
            (hall second List.mem_cons_self).ne⟩
          have hbelow := lt_of_le_of_ne (hfirst second List.mem_cons_self) hne
          rcases List.mem_cons.mp hvalue with rfl | hlater
          · exact hbelow
          · exact hbelow.trans ((List.pairwise_cons.mp hless).1 value hlater)

theorem distinct_iff {values : List Nat} :
    adjacentDistinct (values.insertionSort (· ≤ ·)) = true ↔ values.Nodup := by
  rw [adjacentDistinct_iff (List.pairwise_insertionSort _ _),
    ← (List.perm_insertionSort (· ≤ ·) values).nodup_iff]
  exact ⟨fun h => h.imp ne_of_lt, fun h =>
    ((List.pairwise_insertionSort (· ≤ ·) values).and h).imp fun hboth =>
      lt_of_le_of_ne hboth.1 hboth.2⟩

theorem unrepresented_map (candidates : List Candidate) (hit : Candidate → Bool) :
    unrepresented candidates (candidates.map hit) = candidates.filter fun candidate =>
      !hit candidate := by
  induction candidates with
  | nil => rfl
  | cons candidate candidates ih =>
      rw [unrepresented] at ih ⊢
      rw [List.map_cons, List.zip_cons_cons, List.filter_cons, List.filter_cons]
      dsimp only
      split
      · rw [List.map_cons, ih]
      · exact ih

theorem length_unrepresented (candidates : List Candidate) (hit : Candidate → Bool) :
    (candidates.filter fun candidate => !hit candidate).length =
      (candidates.map hit).count false := by
  rw [List.count, List.countP_map, List.countP_eq_length_filter]
  congr 2
  funext candidate
  cases h : hit candidate <;> simp [h]

end

end CoconutMaskRecovery

end Mmltk.Coconut
