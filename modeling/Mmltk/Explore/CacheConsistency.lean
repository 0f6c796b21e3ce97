import Mmltk.Explore.CacheRuns

namespace Mmltk.Explore

open Mmltk.Foundation

/-- Whether an operation belongs inside an update. -/
def CacheOperation.edits {A M : Type} : CacheOperation A M → Bool
  | .admitImages .. | .complete .. | .updateSemantics .. => true
  | _ => false

namespace GalleryThumbnailCache

variable {A M : Type} {cache after origin edited : GalleryThumbnailCache A M} {slot image : Nat}

/-! Reachable caches, and what an update that is rolled back or committed leaves. -/

/-- Nothing a reader of the cache could tell apart. -/
structure SameView (cache after : GalleryThumbnailCache A M) : Prop where
  size : after.size = cache.size
  entries : ∀ slot < cache.size, after.entries slot = cache.entries slot
  lookup : ∀ image, after.lookup image = cache.lookup image
  demandSlots : after.demandSlots = cache.demandSlots
  demandFirst : after.demandFirst = cache.demandFirst
  position : ∀ image, after.position image = cache.position image

theorem Sound.admitImages {images : List Nat} {first : Nat} (h : cache.Sound) (hnodup : images.Nodup)
    (hlength : images.length ≤ cache.size) (hallowed : cache.Allowed (.admitImages images first)) :
    ∃ after, GalleryThumbnailCache.admitImages images first cache = (after, .ok ()) ∧
      (∀ index image, images[index]? = some image →
        after.position image = (first + index) % 2 ^ 64) ∧
      ∀ image ∈ images, ∀ slot, cache.lookup image = some slot →
        after.lookup image = some slot ∧
          ∃ position, after.entries slot = { cache.entries slot with position := position } := by
  obtain ⟨origin, htracked, -⟩ := h.tracked
  obtain ⟨after, hrun, hadmitted, -⟩ :=
    htracked.admitImages hlength (hallowed hlength).1 (hallowed hlength).2
  refine ⟨after, hrun, ?_, ?_⟩
  · intro index image himage
    obtain ⟨slot, -, hpinned, hholds, hposition⟩ :=
      hadmitted.placed index (List.getElem?_eq_some_iff.mp himage).1 image himage
    have hlookup := (hadmitted.formed.lookup_iff hadmitted.distinct).mpr hholds
    simp only [position, hlookup, hpinned, if_true]
    exact hposition hnodup
  · intro image himage slot hlookup
    obtain ⟨hholds, -, hentry⟩ := hadmitted.hits image himage slot hlookup
    exact ⟨(hadmitted.formed.lookup_iff hadmitted.distinct).mpr hholds, hentry⟩

theorem Restored.sameView (h : Restored cache after) (hcache : cache.Sound) :
    SameView cache after := by
  have hlookup := hcache.formed.lookup_eq hcache.distinct h.formed fun _ _ => h.holds
  refine ⟨h.size, ?_, hlookup, h.demandSlots, h.demandFirst, ?_⟩
  · intro slot hlt
    exact h.entries slot (h.size ▸ hlt)
  · intro image
    rw [position, position, hlookup]
    cases hfound : cache.lookup image with
    | none => rfl
    | some slot =>
        have hlt := (hcache.formed.lookup_holds hfound).1
        have hpinned : after.pinned slot = cache.pinned slot := by
          rw [Bool.eq_iff_iff, h.pinned, hcache.pins]
        simp only [hpinned, h.entries slot (h.size ▸ hlt)]

theorem Formed.exists_fresh (h : cache.Formed) (hsize : cache.size = 3) :
    ∃ image, cache.lookup image = none := by
  let held := (Finset.range 3).image fun slot => (cache.entries slot).compiledIndex
  have hcard : held.card < (Finset.range 4).card :=
    Nat.lt_of_le_of_lt Finset.card_image_le (by simp)
  obtain ⟨image, -, hfresh⟩ := Finset.exists_mem_notMem_of_card_lt_card hcard
  refine ⟨image, h.lookup_none_iff.mpr fun slot hholds => hfresh ?_⟩
  exact Finset.mem_image.mpr ⟨slot, Finset.mem_range.mpr (hsize ▸ hholds.1), hholds.2.2⟩

theorem assign_found (h : cache.lookup image = some slot) :
    GalleryThumbnailCache.assign image cache = (cache, .ok slot) := by
  rw [GalleryThumbnailCache.assign, h]

variable [Inhabited A] [DecidableEq A]

inductive Reachable : GalleryThumbnailCache A M → Prop
  | initial : Reachable initial
  | step {cache : GalleryThumbnailCache A M} (h : Reachable cache)
      (operation : CacheOperation A M) (hallowed : cache.Allowed operation) :
      Reachable (cache.perform operation)

inductive Edited (cache : GalleryThumbnailCache A M) : GalleryThumbnailCache A M → Prop
  | refl : Edited cache cache
  | step {middle : GalleryThumbnailCache A M} (h : Edited cache middle)
      (operation : CacheOperation A M) (hedits : operation.edits = true)
      (hallowed : middle.Allowed operation) : Edited cache (middle.perform operation)

theorem Reachable.sound (h : Reachable cache) : cache.Sound := by
  induction h with
  | initial => exact .initial
  | step h operation hallowed ih => exact ih.perform hallowed

/-- Edits stay recorded against the state the update began in. -/
theorem Edited.tracked (h : Edited cache edited) (hcache : cache.Sound)
    (htracked : Tracked origin cache) :
    edited.Sound ∧ Tracked origin edited ∧ edited.updating = cache.updating := by
  induction h with
  | refl => exact ⟨hcache, htracked, rfl⟩
  | @step middle h operation hedits hallowed ih =>
      obtain ⟨hsound, htracked, hupdating⟩ := ih
      refine ⟨hsound.perform hallowed, ?_⟩
      rw [← hupdating]
      cases operation with
      | admitImages images first =>
          cases Nat.lt_or_ge middle.size images.length with
          | inl hlong =>
              rw [perform, admit_refused hlong]
              exact ⟨htracked, rfl⟩
          | inr hlength =>
              obtain ⟨after, hrun, hadmitted, hafter⟩ :=
                htracked.admitImages hlength (hallowed hlength).1 (hallowed hlength).2
              rw [perform, hrun]
              exact ⟨hafter, hadmitted.updating⟩
      | complete position image meaning semanticIdentity bank semanticBank =>
          exact ⟨(htracked.complete hallowed).1, SameDemand.updating (htracked.complete hallowed).2⟩
      | updateSemantics position semanticIdentity semanticBank =>
          exact ⟨(htracked.updateSemantics hsound.demand).1,
            SameDemand.updating (htracked.updateSemantics hsound.demand).2⟩
      | configure count identity => cases hedits
      | clear => cases hedits
      | beginUpdate => cases hedits
      | commitUpdate => cases hedits
      | rollbackUpdate => cases hedits

theorem Sound.begun (h : cache.Sound) (hupdating : cache.updating = false) :
    Tracked cache (cache.perform .beginUpdate) ∧
      (cache.perform .beginUpdate).updating = true := by
  obtain ⟨hundo, hindices⟩ := h.indices hupdating
  have hbegun : cache.perform .beginUpdate = { cache with
      priorDemand := cache.demandSlots, priorFirst := cache.demandFirst, updating := true } := by
    show ((if cache.updating then _ else _ : Transaction _ _ _) cache).1 = _
    rw [if_neg (by simp [hupdating])]
    rfl
  rw [hbegun]
  refine ⟨⟨h.formed.congr rfl rfl rfl, h.distinct, ?_⟩, rfl⟩
  exact ⟨rfl, by simp [hindices, hundo], nofun, fun _ => ⟨rfl, rfl⟩, fun _ _ _ _ => rfl,
    by simp [hundo]⟩

/-- Lookup finds what each slot holds and no image stands twice; a demand that fits is admitted
whole; an update that is rolled back leaves nothing, and one that is committed everything. -/
theorem cache_consistent (h : Reachable cache) :
    (∀ image slot, cache.lookup image = some slot ↔ cache.Holds slot image) ∧
    (∀ image slot other, cache.Holds slot image → cache.Holds other image → slot = other) ∧
    (∀ images first, images.Nodup → images.length ≤ cache.size →
      cache.Allowed (.admitImages images first) →
      ∃ after, GalleryThumbnailCache.admitImages images first cache = (after, .ok ()) ∧
        (∀ index image, images[index]? = some image →
          after.position image = (first + index) % 2 ^ 64) ∧
        ∀ image ∈ images, ∀ slot, cache.lookup image = some slot →
          after.lookup image = some slot ∧
            ∃ position, after.entries slot = { cache.entries slot with position := position }) ∧
    (cache.updating = false → ∀ edited, Edited (cache.perform .beginUpdate) edited →
      SameView cache (edited.perform .rollbackUpdate)) ∧
    SameView cache (cache.perform .commitUpdate) := by
  have hsound := h.sound
  refine ⟨fun _ _ => hsound.formed.lookup_iff hsound.distinct, hsound.distinct, ?_, ?_, ?_⟩
  · intro images first hnodup hlength hallowed
    exact hsound.admitImages hnodup hlength hallowed
  · intro hupdating edited hedited
    obtain ⟨hbegun, hopen⟩ := hsound.begun hupdating
    have hsoundBegun : (cache.perform .beginUpdate).Sound := hsound.perform trivial
    obtain ⟨-, htracked, hstill⟩ := hedited.tracked hsoundBegun hbegun
    exact (htracked.rollback (hstill.trans hopen)).1.sameView hsound
  · exact ⟨rfl, fun _ _ => rfl, fun _ => rfl, rfl, rfl, fun _ => rfl⟩

/-! The two ways out: a slot positioned at `absent`, and a counter that wraps. -/

def run (cache : GalleryThumbnailCache A M) (operations : List (CacheOperation A M)) :
    GalleryThumbnailCache A M :=
  operations.foldl perform cache

def sampleIdentity : CacheIdentity Unit := ⟨none, 0, 0, (), 1, false⟩

def sample : GalleryThumbnailCache Unit Unit :=
  initial.run [.configure 2 sampleIdentity, .complete 0 7 none 0 0 0]

theorem sample_reachable : Reachable sample :=
  (Reachable.initial.step (.configure 2 sampleIdentity) rfl).step (.complete 0 7 none 0 0 0)
    (by decide : 0 ≠ absent)

theorem cache_consistent_sample :
    (∃ after, GalleryThumbnailCache.admitImages [9, 7] 3 sample = (after, .ok ()) ∧
      after.position 9 = 3 ∧ after.position 7 = 4 ∧ after.lookup 7 = some 0) ∧
    SameView sample
      (((sample.perform .beginUpdate).perform (.admitImages [9, 7] 3)).perform .rollbackUpdate) := by
  obtain ⟨hlookup, -, hadmit, hrollback, -⟩ := cache_consistent sample_reachable
  have hpositions : ∀ index < 2, (3 + index) % 2 ^ 64 ≠ absent := by decide
  constructor
  · obtain ⟨after, hrun, hposition, hhits⟩ := hadmit [9, 7] 3 (by decide) (by decide) fun _ =>
      ⟨hpositions, by decide⟩
    exact ⟨after, hrun, hposition 0 9 rfl, hposition 1 7 rfl, (hhits 7 (by simp) 0 (by decide)).1⟩
  · apply hrollback rfl
    exact .step .refl (.admitImages [9, 7] 3) rfl fun _ => ⟨hpositions, by decide⟩

/-- Three slots taken in turn by images that are never demanded. -/
theorem exists_probed (count : Nat) : ∃ cache : GalleryThumbnailCache Unit Unit,
    Reachable cache ∧ cache.size = 3 ∧ cache.eviction = count ∧
      (∀ slot, cache.pinned slot = false) ∧ ∀ slot < 3, slot < count → cache.Occupied slot := by
  induction count with
  | zero =>
      refine ⟨_, Reachable.initial.step (.configure 3 sampleIdentity) rfl, rfl, rfl, ?_, nofun⟩
      intro slot
      exact Bool.and_false _
  | succ count ih =>
      obtain ⟨cache, hreachable, hsize, hcount, hpinned, hoccupied⟩ := ih
      obtain ⟨image, hfresh⟩ := hreachable.sound.formed.exists_fresh hsize
      let victim := count % 2 ^ 64 % 3
      have hassign : GalleryThumbnailCache.assign image cache =
          ({ cache with eviction := count + 1 }.replace victim image, .ok victim) := by
        simp only [GalleryThumbnailCache.assign, hfresh, hsize, selectVictim, hpinned, hcount]
        rfl
      have hrun : cache.perform (.complete 0 image none 0 0 0) =
          (({ cache with eviction := count + 1 }.replace victim image).save victim).setEntry victim
            ⟨0, image, 0, 0, false, none, 0⟩ := by
        rw [perform, GalleryThumbnailCache.complete, if_neg (by decide)]
        show (Transaction.bind _ _ cache).1 = _
        rw [Transaction.bind, hassign]
        rfl
      refine ⟨cache.perform (.complete 0 image none 0 0 0), hreachable.step _ (by decide : 0 ≠ absent), ?_⟩
      rw [hrun, save_eq, replace_eq]
      refine ⟨hsize, rfl, hpinned, fun slot hslot hlt => ?_⟩
      rcases eq_or_ne slot victim with rfl | hne
      · rw [Occupied, setEntry_self]
        exact (by decide : 0 ≠ absent)
      · have hold : slot < count := by
          rcases Nat.lt_succ_iff_lt_or_eq.mp hlt with hlt | rfl
          · exact hlt
          · exact absurd (by omega : slot = slot % 2 ^ 64 % 3) hne
        rw [setEntry_occupied_of_ne hne, Occupied]
        show (Function.update cache.entries victim _ slot).position ≠ absent
        rw [Function.update_of_ne hne]
        exact hoccupied slot hslot hold

/-- A demand that fits is refused when the counter wraps among its probes. -/
theorem exists_refused : ∃ (cache : GalleryThumbnailCache Unit Unit) (images : List Nat),
    Reachable cache ∧ images.Nodup ∧ images.length ≤ cache.size ∧
      (∀ index < images.length, (0 + index) % 2 ^ 64 ≠ absent) ∧
      ∃ after failure, GalleryThumbnailCache.admitImages images 0 cache = (after, .error failure) := by
  obtain ⟨cache, hreachable, hsize, hcount, -, hoccupied⟩ := exists_probed (2 ^ 64 - 1)
  have hsound := hreachable.sound
  obtain ⟨fresh, hfresh⟩ := hsound.formed.exists_fresh hsize
  let held := fun slot => (cache.entries slot).compiledIndex
  have hholds : ∀ slot < 3, cache.Holds slot (held slot) := by
    intro slot hslot
    exact ⟨hsize ▸ hslot, hoccupied slot hslot (by omega), rfl⟩
  have hdistinct : held 0 ≠ held 1 := by
    intro heq
    exact absurd (hsound.distinct _ 0 1 (hholds 0 (by decide)) (heq ▸ hholds 1 (by decide)))
      (by decide)
  have hunheld : ∀ slot < 3, held slot ≠ fresh := by
    intro slot hslot heq
    exact hsound.formed.not_holds hfresh (heq ▸ hholds slot hslot)
  have hposition : ∀ index < 3, (0 + index) % 2 ^ 64 ≠ absent := by decide
  let images := [held 0, held 1, fresh]
  have hbegin : Admitting cache images 0 0 0 ((cache.pinHits images).resizeDemand 3 0) :=
    .begin hsound.formed hsound.distinct (by omega)
  have hfirst : ((cache.pinHits images).resizeDemand 3 0).Holds 0 (held 0) := hholds 0 (by decide)
  have hsecond := hbegin.demand rfl hfirst (hposition 0 (by decide))
  have hother : (((cache.pinHits images).resizeDemand 3 0).demand 0 0 0).Holds 1 (held 1) :=
    (demand_holds hfirst (hposition 0 (by decide))).mpr (hholds 1 (by decide))
  have hthird := hsecond.demand rfl hother (hposition 1 (by decide))
  generalize hlast : (((cache.pinHits images).resizeDemand 3 0).demand 0 0 0).demand 0 1 1 = last
    at hthird
  have hmissing : last.lookup fresh = none := by
    rw [hthird.formed.lookup_none_iff]
    intro slot hslot
    rw [← hlast, demand_holds hother (hposition 1 (by decide)),
      demand_holds hfirst (hposition 0 (by decide))] at hslot
    exact hsound.formed.not_holds hfresh hslot
  have hprobes : last.eviction = 2 ^ 64 - 1 := by
    rw [← hlast]
    obtain ⟨undo, undoIndices, heq⟩ :=
      demand_eq (((cache.pinHits images).resizeDemand 3 0).demand 0 0 0) 0 1 1
    obtain ⟨undo', undoIndices', heq'⟩ := demand_eq ((cache.pinHits images).resizeDemand 3 0) 0 0 0
    rw [heq, heq']
    exact hcount
  have hpinned : last.pinned 0 = true ∧ last.pinned 1 = true := by
    have hheld : ∀ slot < 3, last.Holds slot (held slot) := by
      intro slot hslot
      rw [← hlast, demand_holds hother (hposition 1 (by decide)),
        demand_holds hfirst (hposition 0 (by decide))]
      exact hholds slot hslot
    obtain ⟨slot, -, hslot, hzero, -⟩ := hthird.placed 0 (by decide) (held 0) rfl
    obtain ⟨slot', -, hslot', hone, -⟩ := hthird.placed 1 (by decide) (held 1) rfl
    rw [hthird.distinct _ slot 0 hzero (hheld 0 (by decide))] at hslot
    rw [hthird.distinct _ slot' 1 hone (hheld 1 (by decide))] at hslot'
    exact ⟨hslot, hslot'⟩
  have hassign : ∃ after failure,
      GalleryThumbnailCache.assign fresh last = (after, .error failure) := by
    rw [GalleryThumbnailCache.assign, hmissing]
    simp [selectVictim, hthird.size, hsize, hprobes, hpinned]
  refine ⟨cache, images, hreachable, ?_, hsize ▸ Nat.le_refl 3, hposition, ?_⟩
  · simp [images, hdistinct, hunheld]
  · obtain ⟨after, failure, hfailed⟩ := hassign
    refine ⟨after, failure, ?_⟩
    show ((if images.length > cache.size then _ else _ : Transaction _ _ _) cache) = _
    rw [if_neg (Nat.not_lt.mpr (hsize ▸ Nat.le_refl 3))]
    show admitFrom 0 0 images ((cache.pinHits images).resizeDemand 3 0) = _
    rw [admitFrom_cons (assign_found ((hbegin.formed.lookup_iff hbegin.distinct).mpr hfirst)),
      admitFrom_cons (assign_found ((hsecond.formed.lookup_iff hsecond.distinct).mpr hother)), hlast]
    show Transaction.bind (GalleryThumbnailCache.assign fresh) _ last = _
    rw [Transaction.bind, hfailed]

def misplaced : GalleryThumbnailCache Unit Unit :=
  initial.run [.configure 2 sampleIdentity, .complete 0 0 none 0 0 0, .complete absent 5 none 0 0 0,
    .admitImages [0] 0, .complete 1 1 none 0 0 0]

/-- An image can stand in a slot where `Lookup` does not find it, and a demand that fits can be
refused. -/
theorem cache_inconsistent :
    (misplaced.Holds 0 0 ∧ misplaced.lookup 0 = none) ∧
    ∃ (cache : GalleryThumbnailCache Unit Unit) (images : List Nat),
      Reachable cache ∧ images.Nodup ∧ images.length ≤ cache.size ∧
        (∀ index < images.length, (0 + index) % 2 ^ 64 ≠ absent) ∧
        ∃ after failure, GalleryThumbnailCache.admitImages images 0 cache = (after, .error failure) := by
  refine ⟨⟨⟨by decide, by unfold Occupied; decide, by decide⟩, by decide⟩, exists_refused⟩

end GalleryThumbnailCache

end Mmltk.Explore
