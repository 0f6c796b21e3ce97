import Mmltk.Explore.CacheUpdates

namespace Mmltk.Explore.GalleryThumbnailCache

open Mmltk.Foundation

variable {A M : Type} {cache after origin start : GalleryThumbnailCache A M} {entry : CacheEntry M}
  {slot other image first offset turns : Nat} {images : List Nat}

/-! A demand is admitted image by image; what it hits is pinned before anything is evicted. -/

structure Tracked (origin cache : GalleryThumbnailCache A M) : Prop where
  formed : cache.Formed
  distinct : cache.Distinct
  recorded : Recorded origin cache

theorem Tracked.replace (h : Tracked origin cache) (hlt : slot < cache.size)
    (hfresh : cache.lookup image = none) : Tracked origin (cache.replace slot image) where
  formed := h.formed.replace hlt
  distinct := h.distinct.replace hlt fun _ => h.formed.not_holds hfresh
  recorded := h.recorded.replace hlt

theorem Tracked.probed (h : Tracked origin cache) (probes : Nat) :
    Tracked origin { cache with eviction := probes } :=
  ⟨h.formed.congr rfl rfl rfl, h.distinct, h.recorded.congr rfl rfl rfl rfl rfl rfl rfl⟩

theorem Tracked.pinned (h : Tracked origin cache) (pinned : Nat → Bool) (demandSlots : List Nat)
    (demandFirst : Nat) :
    Tracked origin
      { cache with pinned := pinned, demandSlots := demandSlots, demandFirst := demandFirst } :=
  ⟨h.formed.congr rfl rfl rfl, h.distinct, h.recorded.congr rfl rfl rfl rfl rfl rfl rfl⟩

theorem Tracked.setEntry (h : Tracked origin cache) (hcovered : cache.Covered slot)
    (himage : entry.compiledIndex = (cache.entries slot).compiledIndex)
    (hposition : entry.position = absent ↔ (cache.entries slot).position = absent) :
    Tracked origin (cache.setEntry slot entry) where
  formed := h.formed.setEntry hposition himage
  distinct := h.distinct.of_holds fun _ _ => (setEntry_holds himage hposition).mp
  recorded := h.recorded.setEntry hcovered

theorem save_holds : (cache.save slot).Holds other image ↔ cache.Holds other image := by
  rw [save_eq]
  rfl

theorem Tracked.save (h : Tracked origin cache) (hlt : slot < cache.size) :
    Tracked origin (cache.save slot) where
  formed := h.formed.congr save_size save_entries save_chains
  distinct := h.distinct.of_holds fun _ _ => save_holds.mp
  recorded := h.recorded.save hlt

theorem Holds.position_iff {position : Nat} (h : cache.Holds slot image)
    (hposition : position ≠ absent) :
    position = absent ↔ (cache.entries slot).position = absent :=
  ⟨fun heq => absurd heq hposition, fun heq => absurd heq h.2.1⟩

theorem demand_eq (cache : GalleryThumbnailCache A M) (first offset slot : Nat) :
    ∃ undo undoIndices, cache.demand first offset slot =
      { cache with
        pinned := Function.update cache.pinned slot true
        entries := Function.update cache.entries slot
          { cache.entries slot with position := (first + offset) % 2 ^ 64 }
        demandSlots := cache.demandSlots.set offset slot
        undo := undo
        undoIndices := undoIndices } := by
  rw [demand]
  split
  · refine ⟨({ cache with pinned := Function.update cache.pinned slot true }.save slot).undo,
      ({ cache with pinned := Function.update cache.pinned slot true }.save slot).undoIndices, ?_⟩
    generalize hsaved : { cache with pinned := Function.update cache.pinned slot true }.save slot = saved
    have heq := save_eq { cache with pinned := Function.update cache.pinned slot true } slot
    rw [hsaved] at heq
    rw [heq]
    rfl
  · exact ⟨cache.undo, cache.undoIndices, rfl⟩

theorem Tracked.demand (h : Tracked origin cache) (hholds : cache.Holds slot image)
    (hposition : (first + offset) % 2 ^ 64 ≠ absent) :
    Tracked origin (cache.demand first offset slot) := by
  have hpinned := h.pinned (Function.update cache.pinned slot true) cache.demandSlots
    cache.demandFirst
  have hframe : ∀ {edited : GalleryThumbnailCache A M}, Tracked origin edited →
      Tracked origin { edited with demandSlots := edited.demandSlots.set offset slot } :=
    fun hedited => hedited.pinned _ _ _
  rw [GalleryThumbnailCache.demand]
  split
  · apply hframe
    refine (hpinned.save hholds.1).setEntry hpinned.recorded.covered_save rfl ?_
    rw [save_entries]
    exact hholds.position_iff hposition
  · next hsame =>
      apply hframe
      have hsame : (cache.entries slot).position = (first + offset) % 2 ^ 64 :=
        not_not.mp hsame
      have hself : { cache.entries slot with position := (first + offset) % 2 ^ 64 } =
          cache.entries slot := by
        rw [← hsame]
      have hentries : Function.update cache.entries slot
          { cache.entries slot with position := (first + offset) % 2 ^ 64 } = cache.entries := by
        rw [hself, Function.update_eq_self]
      constructor
      · exact hpinned.formed.congr rfl hentries rfl
      · apply hpinned.distinct.of_holds
        intro image other hother
        refine (setEntry_holds ?_ ?_).mp hother
        · rfl
        · exact hholds.position_iff hposition
      · exact hpinned.recorded.congr rfl hentries rfl rfl rfl rfl rfl

theorem demand_holds {held : Nat} (hholds : cache.Holds slot image)
    (hposition : (first + offset) % 2 ^ 64 ≠ absent) :
    (cache.demand first offset slot).Holds other held ↔ cache.Holds other held := by
  obtain ⟨undo, undoIndices, heq⟩ := demand_eq cache first offset slot
  rw [heq]
  have hedited : (cache.setEntry slot
      { cache.entries slot with position := (first + offset) % 2 ^ 64 }).Holds other held ↔
        cache.Holds other held := setEntry_holds rfl (hholds.position_iff hposition)
  exact hedited

/-- The first `offset` images of the demand have their positions, and whatever the demand hit is
where it was; the probes left suffice for `turns` more turns. -/
structure Admitting (start : GalleryThumbnailCache A M) (images : List Nat) (first offset turns : Nat)
    (cache : GalleryThumbnailCache A M) : Prop where
  size : cache.size = start.size
  formed : cache.Formed
  distinct : cache.Distinct
  length : cache.demandSlots.length = images.length
  demandFirst : cache.demandFirst = first
  updating : cache.updating = start.updating
  budget : cache.eviction + turns * cache.size ≤ 2 ^ 64
  placed : ∀ index < offset, ∀ image, images[index]? = some image → ∃ slot,
    cache.demandSlots[index]? = some slot ∧ cache.pinned slot = true ∧ cache.Holds slot image ∧
      (images.Nodup → (cache.entries slot).position = (first + index) % 2 ^ 64)
  hits : ∀ image ∈ images, ∀ slot, start.lookup image = some slot →
    cache.Holds slot image ∧ cache.pinned slot = true ∧
      ∃ position, cache.entries slot = { start.entries slot with position := position }
  pins : ∀ slot, cache.pinned slot = true → ∃ image ∈ images, cache.Holds slot image

theorem Admitting.begin (hformed : start.Formed) (hdistinct : start.Distinct)
    (hbudget : start.eviction + turns * start.size ≤ 2 ^ 64) :
    Admitting start images first 0 turns
      ((start.pinHits images).resizeDemand images.length first) where
  size := rfl
  formed := hformed.congr rfl rfl rfl
  distinct := hdistinct
  length := by
    simp only [resizeDemand, pinHits, List.length_append, List.length_take, List.length_replicate]
    omega
  demandFirst := rfl
  updating := rfl
  budget := hbudget
  placed := nofun
  hits := by
    intro image himage slot hlookup
    refine ⟨hformed.lookup_holds hlookup, ?_, _, rfl⟩
    exact List.any_eq_true.mpr ⟨image, himage, by simpa using hlookup⟩
  pins := by
    intro slot hpinned
    obtain ⟨image, himage, hlookup⟩ := List.any_eq_true.mp hpinned
    exact ⟨image, himage, hformed.lookup_holds (by simpa using hlookup)⟩

/-- An image that no slot holds leaves a slot that is not pinned. -/
theorem Admitting.exists_free (h : Admitting start images first offset turns cache)
    (hlength : images.length ≤ cache.size) (himage : image ∈ images)
    (hfresh : cache.lookup image = none) : ∃ slot < cache.size, cache.pinned slot = false := by
  by_contra hall
  push Not at hall
  let held := fun slot => (cache.entries slot).compiledIndex
  have hmaps : ∀ slot ∈ Finset.range cache.size, held slot ∈ images.toFinset.erase image := by
    intro slot hslot
    have hpinned : cache.pinned slot = true := by
      simpa using hall slot (Finset.mem_range.mp hslot)
    obtain ⟨other, hother, hholds⟩ := h.pins slot hpinned
    have heq : held slot = other := hholds.2.2
    rw [heq, Finset.mem_erase, List.mem_toFinset]
    refine ⟨?_, hother⟩
    intro hsame
    exact h.formed.not_holds hfresh (hsame ▸ hholds)
  have hinjective : Set.InjOn held (Finset.range cache.size) := by
    intro slot hslot other hother heq
    have hholds : ∀ slot ∈ Finset.range cache.size, cache.Holds slot (held slot) := by
      intro slot hslot
      have hpinned : cache.pinned slot = true := by
        simpa using hall slot (Finset.mem_range.mp hslot)
      obtain ⟨other, -, hholds⟩ := h.pins slot hpinned
      exact ⟨hholds.1, hholds.2.1, rfl⟩
    exact h.distinct (held slot) slot other (hholds slot hslot) (heq ▸ hholds other hother)
  have hcard := Finset.card_le_card_of_injOn held hmaps hinjective
  have herase := Finset.card_erase_lt_of_mem (List.mem_toFinset.mpr himage)
  have hdistinct := List.toFinset_card_le images
  rw [Finset.card_range] at hcard
  omega

theorem Admitting.assign (h : Admitting start images first offset (turns + 1) cache)
    (hlength : images.length ≤ cache.size) (himage : image ∈ images) :
    ∃ slot after, GalleryThumbnailCache.assign image cache = (after, .ok slot) ∧
      Admitting start images first offset turns after ∧ after.Holds slot image ∧
      (cache.lookup image = some slot ∧ after = cache ∨
        cache.lookup image = none ∧ ∃ probes, slot < cache.size ∧
          after = { cache with eviction := probes }.replace slot image) := by
  have hturn : (turns + 1) * cache.size = turns * cache.size + cache.size := Nat.succ_mul ..
  have hbudget := h.budget
  obtain ⟨slot, hlookup, heq⟩ | ⟨hlookup, hevicted | ⟨hpinned, failure, heq⟩⟩ :=
    cache.assign_cases image
  · exact ⟨slot, cache, heq, { h with budget := by omega }, h.formed.lookup_holds hlookup,
      .inl ⟨hlookup, rfl⟩⟩
  · obtain ⟨slot, probes, hlt, hfree, hle, heq⟩ := hevicted
    have hformed : { cache with eviction := cache.eviction + probes }.Formed :=
      h.formed.congr rfl rfl rfl
    have hfresh : ∀ other, ¬ { cache with eviction := cache.eviction + probes }.Holds other image :=
      fun other => h.formed.not_holds hlookup
    have hreplaced : ∀ other held,
        ({ cache with eviction := cache.eviction + probes }.replace slot image).Holds other held ↔
          other = slot ∧ held = image ∨ other ≠ slot ∧ cache.Holds other held :=
      fun _ _ => replace_holds hlt
    have hholds : ∀ other held, cache.Holds other held → cache.pinned other = true →
        ({ cache with eviction := cache.eviction + probes }.replace slot image).Holds other held := by
      intro other held hother hpinned
      refine (hreplaced other held).mpr (.inr ⟨?_, hother⟩)
      intro hsame
      exact absurd (hsame ▸ hpinned) (by simp [hfree])
    have hkept : ∀ other, cache.pinned other = true →
        ({ cache with eviction := cache.eviction + probes }.replace slot image).entries other =
          cache.entries other := by
      intro other hpinned
      rw [replace_eq]
      apply Function.update_of_ne
      intro hsame
      exact absurd (hsame ▸ hpinned) (by simp [hfree])
    refine ⟨slot, _, heq, ?_, (hreplaced slot image).mpr (.inl ⟨rfl, rfl⟩),
      .inr ⟨hlookup, _, hlt, rfl⟩⟩
    constructor
    · rw [replace_eq]
      exact h.size
    · exact hformed.replace hlt
    · have hprobed : { cache with eviction := cache.eviction + probes }.Distinct := h.distinct
      exact hprobed.replace hlt hfresh
    · rw [replace_eq]
      exact h.length
    · rw [replace_eq]
      exact h.demandFirst
    · rw [replace_eq]
      exact h.updating
    · rw [replace_eq]
      show cache.eviction + probes + turns * cache.size ≤ _
      omega
    · intro index hindex other hother
      obtain ⟨found, hslot, hpinned, hheld, hposition⟩ := h.placed index hindex other hother
      refine ⟨found, ?_, ?_, hholds found other hheld hpinned, fun hnodup => ?_⟩
      · rw [replace_eq]
        exact hslot
      · rw [replace_eq]
        exact hpinned
      · rw [hkept found hpinned]
        exact hposition hnodup
    · intro other hother found hfound
      obtain ⟨hheld, hpinned, hentry⟩ := h.hits other hother found hfound
      refine ⟨hholds found other hheld hpinned, ?_, ?_⟩
      · rw [replace_eq]
        exact hpinned
      · rw [hkept found hpinned]
        exact hentry
    · intro other hpinned
      rw [replace_eq] at hpinned
      obtain ⟨held, hmem, hheld⟩ := h.pins other hpinned
      exact ⟨held, hmem, hholds other held hheld hpinned⟩
  · obtain ⟨free, hlt, hfree⟩ := h.exists_free hlength himage hlookup
    have htrue := hpinned (by omega) free hlt
    exact absurd (htrue.symm.trans hfree) nofun

theorem Admitting.demand (h : Admitting start images first offset turns cache)
    (himage : images[offset]? = some image) (hholds : cache.Holds slot image)
    (hposition : (first + offset) % 2 ^ 64 ≠ absent) :
    Admitting start images first (offset + 1) turns (cache.demand first offset slot) := by
  have hsame : ∀ {other held}, (cache.demand first offset slot).Holds other held ↔
      cache.Holds other held := demand_holds hholds hposition
  have htracked : (cache.demand first offset slot).Formed := by
    obtain ⟨undo, undoIndices, heq⟩ := demand_eq cache first offset slot
    rw [heq]
    have hedited : (cache.setEntry slot
        { cache.entries slot with position := (first + offset) % 2 ^ 64 }).Formed :=
      h.formed.setEntry (hholds.position_iff hposition) rfl
    exact hedited.congr rfl rfl rfl
  obtain ⟨undo, undoIndices, heq⟩ := demand_eq cache first offset slot
  have hindex : offset < cache.demandSlots.length := by
    rw [h.length]
    exact (List.getElem?_eq_some_iff.mp himage).1
  constructor
  · rw [heq]
    exact h.size
  · exact htracked
  · exact h.distinct.of_holds fun _ _ => hsame.mp
  · rw [heq]
    simpa using h.length
  · rw [heq]
    exact h.demandFirst
  · rw [heq]
    exact h.updating
  · rw [heq]
    exact h.budget
  · intro index hlt other hother
    rcases Nat.lt_succ_iff_lt_or_eq.mp hlt with hlt | rfl
    · obtain ⟨found, hslot, hpinned, hheld, hkept⟩ := h.placed index hlt other hother
      refine ⟨found, ?_, ?_, hsame.mpr hheld, fun hnodup => ?_⟩
      · rw [heq]
        show (cache.demandSlots.set offset slot)[index]? = _
        rw [List.getElem?_set_ne (Nat.ne_of_gt hlt)]
        exact hslot
      · rw [heq]
        show Function.update cache.pinned slot true found = true
        rcases eq_or_ne found slot with rfl | hne
        · exact Function.update_self ..
        · rw [Function.update_of_ne hne]
          exact hpinned
      · have hne : found ≠ slot := by
          intro hfound
          have himages : other = image := (hheld.2.2.symm.trans (hfound ▸ rfl)).trans hholds.2.2
          obtain ⟨hindexLt, hindexEq⟩ := List.getElem?_eq_some_iff.mp hother
          obtain ⟨hoffsetLt, hoffsetEq⟩ := List.getElem?_eq_some_iff.mp himage
          have := (List.Nodup.getElem_inj_iff hnodup).mp
            (hindexEq.trans (himages.trans hoffsetEq.symm))
          omega
        rw [heq]
        show (Function.update cache.entries slot _ found).position = _
        rw [Function.update_of_ne hne]
        exact hkept hnodup
    · cases himage.symm.trans hother
      refine ⟨slot, ?_, ?_, hsame.mpr hholds, fun _ => ?_⟩
      · rw [heq]
        show (cache.demandSlots.set index slot)[index]? = _
        rw [List.getElem?_set_self hindex]
      · rw [heq]
        exact Function.update_self ..
      · rw [heq]
        show (Function.update cache.entries slot _ slot).position = _
        rw [Function.update_self]
  · intro other hother found hfound
    obtain ⟨hheld, hpinned, hentry⟩ := h.hits other hother found hfound
    refine ⟨hsame.mpr hheld, ?_, ?_⟩
    · rw [heq]
      show Function.update cache.pinned slot true found = true
      rcases eq_or_ne found slot with rfl | hne
      · exact Function.update_self ..
      · rw [Function.update_of_ne hne]
        exact hpinned
    · rw [heq]
      obtain ⟨position, hentry⟩ := hentry
      rcases eq_or_ne found slot with rfl | hne
      · refine ⟨(first + offset) % 2 ^ 64, (Function.update_self ..).trans ?_⟩
        rw [hentry]
      · exact ⟨position, (Function.update_of_ne hne ..).trans hentry⟩
  · intro other hpinned
    rw [heq] at hpinned
    change Function.update cache.pinned slot true other = true at hpinned
    rcases eq_or_ne other slot with rfl | hne
    · exact ⟨image, List.mem_of_getElem? himage, hsame.mpr hholds⟩
    · rw [Function.update_of_ne hne] at hpinned
      obtain ⟨held, hmem, hheld⟩ := h.pins other hpinned
      exact ⟨held, hmem, hsame.mpr hheld⟩

theorem admitFrom_cons {rest : List Nat}
    (h : GalleryThumbnailCache.assign image cache = (after, .ok slot)) :
    admitFrom first offset (image :: rest) cache =
      admitFrom first (offset + 1) rest (after.demand first offset slot) := by
  show Transaction.bind (GalleryThumbnailCache.assign image) _ cache = _
  rw [Transaction.bind, h]
  rfl

/-- The rest of a demand, with the record of the open update. -/
theorem Admitting.admitFrom {rest : List Nat}
    (h : Admitting start images first offset rest.length cache)
    (htracked : Tracked origin cache) (hlength : images.length ≤ start.size)
    (hrest : images.drop offset = rest)
    (hpositions : ∀ index < images.length, (first + index) % 2 ^ 64 ≠ absent) :
    ∃ after, GalleryThumbnailCache.admitFrom first offset rest cache = (after, .ok ()) ∧
      Admitting start images first images.length 0 after ∧ Tracked origin after := by
  induction rest generalizing cache offset with
  | nil =>
      refine ⟨cache, rfl, { h with placed := ?_ }, htracked⟩
      intro index hindex
      exact h.placed index (Nat.lt_of_lt_of_le hindex (List.drop_eq_nil_iff.mp hrest))
  | cons image rest ih =>
      have himage : images[offset]? = some image := by
        rw [← List.head?_drop, hrest]
        rfl
      have hlt := (List.getElem?_eq_some_iff.mp himage).1
      have hposition := hpositions offset hlt
      obtain ⟨slot, after, hassign, hafter, hholds, hcases⟩ :=
        h.assign (h.size ▸ hlength) (List.mem_of_getElem? himage)
      have hkept : Tracked origin after := by
        obtain ⟨-, rfl⟩ | ⟨hfresh, probes, hslot, rfl⟩ := hcases
        · exact htracked
        · exact (htracked.probed probes).replace hslot hfresh
      rw [admitFrom_cons hassign]
      apply ih (hafter.demand himage hholds hposition) (hkept.demand hholds hposition)
      rw [← List.drop_drop, hrest]
      rfl

theorem Tracked.admitImages (h : Tracked origin cache) (hlength : images.length ≤ cache.size)
    (hpositions : ∀ index < images.length, (first + index) % 2 ^ 64 ≠ absent)
    (hbudget : cache.eviction + images.length * cache.size ≤ 2 ^ 64) :
    ∃ after, GalleryThumbnailCache.admitImages images first cache = (after, .ok ()) ∧
      Admitting cache images first images.length 0 after ∧ Tracked origin after := by
  have hbegin : Admitting cache images first 0 images.length
      ((cache.pinHits images).resizeDemand images.length first) :=
    .begin h.formed h.distinct hbudget
  obtain ⟨after, hrun, hafter⟩ := hbegin.admitFrom (h.pinned _ _ _) hlength rfl hpositions
  refine ⟨after, ?_, hafter⟩
  rw [← hrun]
  show (if images.length > cache.size then _ else _ : Transaction _ _ _) cache = _
  rw [if_neg (Nat.not_lt.mpr hlength)]
  rfl

end Mmltk.Explore.GalleryThumbnailCache
