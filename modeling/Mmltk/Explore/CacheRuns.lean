import Mmltk.Explore.CacheAdmission

namespace Mmltk.Explore.GalleryThumbnailCache

open Mmltk.Foundation

variable {A M : Type} {cache after origin edited : GalleryThumbnailCache A M}
  {entry : CacheEntry M} {slot image : Nat} {meaning : Option M}

/-! Every operation keeps the slots found and an open update able to go back. -/

/-- The demand is the same, in the same update. -/
structure SameDemand (cache after : GalleryThumbnailCache A M) : Prop where
  updating : after.updating = cache.updating
  size : after.size = cache.size
  pinned : after.pinned = cache.pinned
  demandSlots : after.demandSlots = cache.demandSlots
  demandFirst : after.demandFirst = cache.demandFirst

theorem SameDemand.refl (cache : GalleryThumbnailCache A M) : SameDemand cache cache :=
  ⟨rfl, rfl, rfl, rfl, rfl⟩

theorem SameDemand.saveSet (cache : GalleryThumbnailCache A M) (slot : Nat) (entry : CacheEntry M) :
    SameDemand cache ((cache.save slot).setEntry slot entry) := by
  rw [save_eq]
  exact ⟨rfl, rfl, rfl, rfl, rfl⟩

theorem SameDemand.trans {middle : GalleryThumbnailCache A M} (h : SameDemand cache middle)
    (hnext : SameDemand middle after) : SameDemand cache after :=
  ⟨hnext.updating.trans h.updating, hnext.size.trans h.size, hnext.pinned.trans h.pinned,
    hnext.demandSlots.trans h.demandSlots, hnext.demandFirst.trans h.demandFirst⟩

theorem Tracked.assign (h : Tracked origin cache) (image : Nat) :
    Tracked origin (GalleryThumbnailCache.assign image cache).1 ∧
      SameDemand cache (GalleryThumbnailCache.assign image cache).1 ∧
      ∀ slot, (GalleryThumbnailCache.assign image cache).2 = .ok slot →
        (GalleryThumbnailCache.assign image cache).1.Holds slot image := by
  obtain ⟨found, hlookup, heq⟩ | ⟨hfresh, hevicted | ⟨-, failure, heq⟩⟩ := cache.assign_cases image
  · rw [heq]
    refine ⟨h, .refl cache, fun slot hslot => ?_⟩
    cases hslot
    exact h.formed.lookup_holds hlookup
  · obtain ⟨victim, probes, hlt, -, -, heq⟩ := hevicted
    rw [heq]
    refine ⟨(h.probed _).replace hlt hfresh, ?_, fun slot hslot => ?_⟩
    · rw [replace_eq]
      exact ⟨rfl, rfl, rfl, rfl, rfl⟩
    · cases hslot
      have hreplaced : ∀ other held,
          ({ cache with eviction := cache.eviction + probes }.replace victim image).Holds other held ↔
            other = victim ∧ held = image ∨ other ≠ victim ∧ cache.Holds other held :=
        fun _ _ => replace_holds hlt
      exact (hreplaced victim image).mpr (.inl ⟨rfl, rfl⟩)
  · rw [heq]
    exact ⟨h.probed _, ⟨rfl, rfl, rfl, rfl, rfl⟩, nofun⟩

theorem Tracked.saveSet (h : Tracked origin cache) (hholds : cache.Holds slot image)
    (himage : entry.compiledIndex = image) (hposition : entry.position ≠ absent) :
    Tracked origin ((cache.save slot).setEntry slot entry) := by
  apply (h.save hholds.1).setEntry h.recorded.covered_save
  · rw [save_entries, himage]
    exact hholds.2.2.symm
  · rw [save_entries]
    exact hholds.position_iff hposition

theorem Tracked.complete {position semanticIdentity bank semanticBank : Nat}
    (h : Tracked origin cache) (hposition : position ≠ absent) :
    Tracked origin (GalleryThumbnailCache.complete position image meaning semanticIdentity bank
        semanticBank cache).1 ∧
      SameDemand cache (GalleryThumbnailCache.complete position image meaning semanticIdentity bank
        semanticBank cache).1 := by
  obtain ⟨htracked, hsame, hholds⟩ := h.assign image
  rw [GalleryThumbnailCache.complete]
  split
  · exact ⟨h, .refl cache⟩
  · show Tracked origin (Transaction.bind _ _ cache).1 ∧
      SameDemand cache (Transaction.bind _ _ cache).1
    rw [Transaction.bind]
    cases hrun : GalleryThumbnailCache.assign image cache with
    | mk middle result =>
        rw [hrun] at htracked hsame hholds
        cases result with
        | error failure => exact ⟨htracked, hsame⟩
        | ok slot =>
            exact ⟨htracked.saveSet (hholds slot rfl) rfl hposition, hsame.trans (.saveSet ..)⟩

theorem updateSemantics_cases (cache : GalleryThumbnailCache A M)
    (position semanticIdentity semanticBank : Nat) :
    (updateSemantics position semanticIdentity semanticBank cache).1 = cache ∨
      ∃ slot ∈ cache.demandSlots, (updateSemantics position semanticIdentity semanticBank cache).1 =
        (cache.save slot).setEntry slot { cache.entries slot with semanticIdentity, semanticBank } := by
  rw [updateSemantics]
  split
  · exact .inl rfl
  · show (Transaction.bind _ _ cache).1 = cache ∨ ∃ slot ∈ _, (Transaction.bind _ _ cache).1 = _
    rw [Transaction.bind, Transaction.read]
    dsimp only
    cases hslot : cache.slot position with
    | none => exact .inl rfl
    | some slot =>
        dsimp only
        split
        · exact .inl rfl
        · exact .inr ⟨slot, List.mem_of_getElem? hslot, rfl⟩

theorem Tracked.updateSemantics {position semanticIdentity semanticBank : Nat}
    (h : Tracked origin cache) (hdemand : ∀ slot ∈ cache.demandSlots, slot < cache.size) :
    Tracked origin
        (GalleryThumbnailCache.updateSemantics position semanticIdentity semanticBank cache).1 ∧
      SameDemand cache
        (GalleryThumbnailCache.updateSemantics position semanticIdentity semanticBank cache).1 := by
  obtain heq | ⟨slot, hslot, heq⟩ :=
    cache.updateSemantics_cases position semanticIdentity semanticBank
  · rw [heq]
    exact ⟨h, .refl cache⟩
  · rw [heq]
    refine ⟨?_, .saveSet ..⟩
    apply (h.save (hdemand slot hslot)).setEntry h.recorded.covered_save
    · rw [save_entries]
    · rw [save_entries]

/-! Going back. -/

theorem restore_eq (cache : GalleryThumbnailCache A M) (slot : Nat) (entry : CacheEntry M) :
    cache.restore slot entry =
      { cache with
        entries := Function.update cache.entries slot entry
        chains := (cache.restore slot entry).chains } := by
  unfold restore
  dsimp only
  split
  · rw [erase_eq]
    rfl
  · rw [erase_eq]
    rfl

theorem restoreEach_spec {records : List (Nat × CacheEntry M)} (h : cache.Formed)
    (hlt : ∀ record ∈ records, record.1 < cache.size) :
    (cache.restoreEach records).Formed ∧
      ∃ entries chains, cache.restoreEach records =
          { cache with entries := entries, chains := chains } ∧
        ∀ original : Nat → CacheEntry M, (∀ record ∈ records, record.2 = original record.1) →
          (∀ slot < cache.size, slot ∉ records.map Prod.fst →
            cache.entries slot = original slot) →
          ∀ slot < cache.size, entries slot = original slot := by
  induction records generalizing cache with
  | nil =>
      refine ⟨h, cache.entries, cache.chains, rfl, ?_⟩
      intro original _ hrest slot hslot
      exact hrest slot hslot (by simp)
  | cons record rest ih =>
      obtain ⟨slot, entry⟩ := record
      have hslot : slot < cache.size := hlt (slot, entry) (by simp)
      have hsize : (cache.restore slot entry).size = cache.size := by rw [restore_eq]
      have hrest : ∀ record ∈ rest, record.1 < (cache.restore slot entry).size := by
        intro record hrecord
        rw [hsize]
        exact hlt record (List.mem_cons_of_mem _ hrecord)
      obtain ⟨hformed, entries, chains, heq, horiginal⟩ := ih (h.restore hslot) hrest
      refine ⟨hformed, entries, chains, ?_, ?_⟩
      · rw [restoreEach, heq, restore_eq]
      · intro original hrecords hkept other hother
        apply horiginal original
        · intro record hrecord
          exact hrecords record (List.mem_cons_of_mem _ hrecord)
        · intro third hthird hnot
          rw [restore_eq]
          show Function.update cache.entries slot entry third = original third
          rcases eq_or_ne third slot with rfl | hne
          · rw [Function.update_self]
            exact hrecords (third, entry) (by simp)
          · rw [Function.update_of_ne hne]
            apply hkept third (hsize ▸ hthird)
            simp [hne, hnot]
        · rw [hsize]
          exact hother

/-- What a rollback comes back to. -/
structure Restored (origin cache : GalleryThumbnailCache A M) : Prop where
  size : cache.size = origin.size
  formed : cache.Formed
  entries : ∀ slot < cache.size, cache.entries slot = origin.entries slot
  demandSlots : cache.demandSlots = origin.demandSlots
  demandFirst : cache.demandFirst = origin.demandFirst
  pinned : ∀ slot, cache.pinned slot = true ↔ slot ∈ origin.demandSlots

theorem Restored.holds (h : Restored origin cache) :
    cache.Holds slot image ↔ origin.Holds slot image := by
  rw [Holds, Holds, h.size]
  constructor
  · rintro ⟨hlt, hoccupied, himage⟩
    have hentry := h.entries slot (h.size ▸ hlt)
    refine ⟨hlt, ?_, hentry ▸ himage⟩
    rw [Occupied, ← hentry]
    exact hoccupied
  · rintro ⟨hlt, hoccupied, himage⟩
    have hentry := h.entries slot (h.size ▸ hlt)
    refine ⟨hlt, ?_, hentry ▸ himage⟩
    rw [Occupied, hentry]
    exact hoccupied

theorem Recorded.committed (h : Recorded origin cache) (slot : Nat) :
    cache.commitUpdate.undoIndices slot = none := by
  show (if slot ∈ cache.undo.map Prod.fst then none else cache.undoIndices slot) = none
  split
  · rfl
  · next hslot =>
      rw [← h.saved slot] at hslot
      simpa using hslot

theorem Recorded.fresh (hundo : cache.undo = []) (hindices : ∀ slot, cache.undoIndices slot = none)
    (hprior : cache.updating = true →
      cache.priorDemand = cache.demandSlots ∧ cache.priorFirst = cache.demandFirst) :
    Recorded cache cache where
  size := rfl
  saved := by
    intro slot
    simp [hindices, hundo]
  quiet _ := hundo
  prior := hprior
  kept _ _ _ _ := rfl
  undo := by simp [hundo]

theorem Tracked.rollback (h : Tracked origin cache) (hupdating : cache.updating = true) :
    Restored origin cache.rollbackUpdate ∧ cache.rollbackUpdate.updating = false ∧
      cache.rollbackUpdate.undo = [] ∧ ∀ slot, cache.rollbackUpdate.undoIndices slot = none := by
  obtain ⟨hformed, entries, chains, heq, horiginal⟩ :=
    restoreEach_spec h.formed fun record hrecord => (h.recorded.undo record hrecord).1
  obtain ⟨hdemand, hfirst⟩ := h.recorded.prior hupdating
  have hentries := horiginal origin.entries
    (fun record hrecord => (h.recorded.undo record hrecord).2) (h.recorded.kept hupdating)
  rw [rollbackUpdate, if_neg (by simp [hupdating])]
  rw [heq] at hformed ⊢
  refine ⟨⟨h.recorded.size, hformed.congr rfl rfl rfl, hentries, hdemand, hfirst, ?_⟩, rfl, rfl, ?_⟩
  · intro slot
    rw [← hdemand]
    exact decide_eq_true_iff
  · exact h.recorded.committed

/-! Whole runs. -/

structure Sound (cache : GalleryThumbnailCache A M) : Prop where
  pins : ∀ slot, cache.pinned slot = true ↔ slot ∈ cache.demandSlots
  demand : ∀ slot ∈ cache.demandSlots, slot < cache.size
  tracked : ∃ origin, Tracked origin cache ∧ origin.Distinct ∧
    ∀ slot ∈ origin.demandSlots, slot < origin.size

theorem Sound.formed (h : cache.Sound) : cache.Formed := by
  obtain ⟨origin, htracked, -⟩ := h.tracked
  exact htracked.formed

theorem Sound.distinct (h : cache.Sound) : cache.Distinct := by
  obtain ⟨origin, htracked, -⟩ := h.tracked
  exact htracked.distinct

theorem Sound.settled (hformed : cache.Formed) (hdistinct : cache.Distinct)
    (hundo : cache.undo = []) (hindices : ∀ slot, cache.undoIndices slot = none)
    (hupdating : cache.updating = false)
    (hpins : ∀ slot, cache.pinned slot = true ↔ slot ∈ cache.demandSlots)
    (hdemand : ∀ slot ∈ cache.demandSlots, slot < cache.size) : cache.Sound := by
  have hrecorded : Recorded cache cache := .fresh hundo hindices fun heq =>
    absurd (hupdating.symm.trans heq) nofun
  exact ⟨hpins, hdemand, cache, ⟨hformed, hdistinct, hrecorded⟩, hdistinct, hdemand⟩

theorem Sound.sameDemand (h : cache.Sound) (hsame : SameDemand cache after)
    (htracked : ∀ origin, Tracked origin cache → Tracked origin after) : after.Sound := by
  obtain ⟨origin, horigin, hrest⟩ := h.tracked
  refine ⟨?_, ?_, origin, htracked origin horigin, hrest⟩
  · rw [hsame.pinned, hsame.demandSlots]
    exact h.pins
  · rw [hsame.demandSlots, hsame.size]
    exact h.demand

theorem Sound.indices (h : cache.Sound) (hupdating : cache.updating = false) :
    cache.undo = [] ∧ ∀ slot, cache.undoIndices slot = none := by
  obtain ⟨origin, htracked, -⟩ := h.tracked
  have hundo := htracked.recorded.quiet hupdating
  refine ⟨hundo, fun slot => ?_⟩
  have hsaved := htracked.recorded.saved slot
  simpa [hundo] using hsaved

theorem Admitting.demandSlots {first : Nat} {images : List Nat}
    (h : Admitting origin images first images.length 0 cache) (slot : Nat) :
    cache.pinned slot = true ↔ slot ∈ cache.demandSlots := by
  constructor
  · intro hpinned
    obtain ⟨image, himage, hholds⟩ := h.pins slot hpinned
    obtain ⟨index, hindex⟩ := List.mem_iff_getElem?.mp himage
    obtain ⟨found, hfound, -, hheld, -⟩ :=
      h.placed index (List.getElem?_eq_some_iff.mp hindex).1 image hindex
    rw [h.distinct image slot found hholds hheld]
    exact List.mem_of_getElem? hfound
  · intro hslot
    obtain ⟨index, hindex⟩ := List.mem_iff_getElem?.mp hslot
    have hlt := (List.getElem?_eq_some_iff.mp hindex).1
    rw [h.length] at hlt
    obtain ⟨found, hfound, hpinned, -⟩ :=
      h.placed index hlt images[index] (List.getElem?_eq_getElem hlt)
    cases hindex.symm.trans hfound
    exact hpinned

theorem Admitting.demand_lt {first : Nat} {images : List Nat}
    (h : Admitting origin images first images.length 0 cache) :
    ∀ slot ∈ cache.demandSlots, slot < cache.size := by
  intro slot hslot
  obtain ⟨image, -, hholds⟩ := h.pins slot ((h.demandSlots slot).mpr hslot)
  exact hholds.1

/-- What an operation needs: no position is `absent`, the eviction counter does not wrap within an
`Admit`, and `Configure` and `Clear` come outside an update. -/
def Allowed (cache : GalleryThumbnailCache A M) : CacheOperation A M → Prop
  | .configure _ _ | .clear => cache.updating = false
  | .admitImages images first => images.length ≤ cache.size →
      (∀ index < images.length, (first + index) % 2 ^ 64 ≠ absent) ∧
        cache.eviction + images.length * cache.size ≤ 2 ^ 64
  | .complete position .. => position ≠ absent
  | .beginUpdate | .commitUpdate | .rollbackUpdate | .updateSemantics .. => True

theorem Sound.initial [Inhabited A] : (initial : GalleryThumbnailCache A M).Sound := by
  apply Sound.settled
  · exact ⟨nofun, fun _ hlt => absurd hlt (Nat.not_lt_zero _)⟩
  · intro image slot other hslot
    exact absurd hslot.1 (Nat.not_lt_zero _)
  · rfl
  · exact fun _ => rfl
  · rfl
  · intro slot
    simp [GalleryThumbnailCache.initial]
  · exact nofun

theorem Sound.commit (h : cache.Sound) : cache.commitUpdate.Sound := by
  obtain ⟨origin, htracked, -⟩ := h.tracked
  exact .settled (htracked.formed.congr rfl rfl rfl) htracked.distinct rfl
    htracked.recorded.committed rfl h.pins h.demand

theorem Sound.clear [Inhabited A] (h : cache.Sound) : cache.clear.Sound := by
  obtain ⟨origin, htracked, -⟩ := h.tracked
  apply Sound.settled
  · exact ⟨nofun, fun _ hlt => absurd hlt (Nat.not_lt_zero _)⟩
  · intro image slot other hslot
    exact absurd hslot.1 (Nat.not_lt_zero _)
  · rfl
  · exact htracked.recorded.committed
  · rfl
  · intro slot
    simp [GalleryThumbnailCache.clear]
  · exact nofun

/-- Slots that keep their images, and new ones that are empty. -/
theorem Distinct.resized (h : cache.Distinct)
    (hkept : ∀ slot < after.size, after.Occupied slot → slot < cache.size ∧ cache.Occupied slot ∧
      (cache.entries slot).compiledIndex = (after.entries slot).compiledIndex) :
    after.Distinct := by
  apply h.of_holds
  intro image slot hholds
  obtain ⟨hlt, hoccupied, himage⟩ := hkept slot hholds.1 hholds.2.1
  exact ⟨hlt, hoccupied, himage.trans hholds.2.2⟩

theorem resize_kept (cache : GalleryThumbnailCache A M) (count : Nat) {slot : Nat}
    (hlt : slot < (cache.resize count).size) (hoccupied : (cache.resize count).Occupied slot) :
    slot < cache.size ∧ (cache.resize count).entries slot = cache.entries slot := by
  rw [resize] at hlt hoccupied ⊢
  split
  · next hgrown =>
      rw [if_pos hgrown] at hlt hoccupied
      by_cases hslot : slot < cache.size
      · exact ⟨hslot, if_pos hslot⟩
      · refine absurd ?_ hoccupied
        show (if slot < cache.size then cache.entries slot else CacheEntry.initial).position = absent
        rw [if_neg hslot]
        rfl
  · next hgrown =>
      rw [if_neg hgrown] at hlt
      exact ⟨hlt, rfl⟩

theorem resize_eq (cache : GalleryThumbnailCache A M) (count : Nat) :
    cache.resize count =
      { cache with size := (cache.resize count).size, entries := (cache.resize count).entries } := by
  unfold resize
  split <;> rfl

theorem le_resize (cache : GalleryThumbnailCache A M) (count : Nat) :
    cache.size ≤ (cache.resize count).size := by
  unfold resize
  split
  · next hgrown => exact Nat.le_of_lt hgrown
  · exact Nat.le_refl _

/-- The slots and the demand after `Configure`, whether or not the identity changed. -/
theorem Sound.rebuilt (hdistinct : cache.Distinct) (hundo : cache.undo = [])
    (hindices : ∀ slot, cache.undoIndices slot = none) (hupdating : cache.updating = false)
    (hpins : ∀ slot, cache.pinned slot = true ↔ slot ∈ cache.demandSlots)
    (hdemand : ∀ slot ∈ cache.demandSlots, slot < cache.size) (count : Nat) :
    (cache.resize count).reindex.Sound := by
  have hformed := (cache.resize count).reindex_formed
  rw [reindex_eq] at hformed ⊢
  generalize hchains : (cache.resize count).reindex.chains = chains at hformed ⊢
  have hkept := @resize_kept _ _ cache count
  have hgrown := cache.le_resize count
  rw [resize_eq] at hformed hkept hgrown ⊢
  apply Sound.settled hformed
  · apply hdistinct.resized
    intro slot hlt hoccupied
    obtain ⟨hslot, hentry⟩ := hkept hlt hoccupied
    refine ⟨hslot, ?_, by rw [← hentry]⟩
    rw [Occupied, ← hentry]
    exact hoccupied
  · exact hundo
  · intro slot
    show (if _ then cache.undoIndices slot else none) = none
    rw [hindices]
    exact ite_self _
  · exact hupdating
  · intro slot
    show (decide (slot < (cache.resize count).size) && cache.pinned slot) = true ↔
      slot ∈ cache.demandSlots
    rw [Bool.and_eq_true, decide_eq_true_iff, hpins]
    constructor
    · exact fun hslot => hslot.2
    · exact fun hslot => ⟨Nat.lt_of_lt_of_le (hdemand slot hslot) hgrown, hslot⟩
  · intro slot hslot
    exact Nat.lt_of_lt_of_le (hdemand slot hslot) hgrown

theorem Sound.configure [DecidableEq A] (h : cache.Sound) (hupdating : cache.updating = false) (count : Nat)
    (identity : CacheIdentity A) : (GalleryThumbnailCache.configure count identity cache).1.Sound := by
  obtain ⟨hundo, hindices⟩ := h.indices hupdating
  rw [GalleryThumbnailCache.configure]
  split
  · exact h
  · show (if _ then _ else _ : GalleryThumbnailCache A M).Sound
    split
    · exact h
    · split
      · rw [identify]
        dsimp only
        split
        · apply Sound.rebuilt
          · exact h.distinct
          · exact hundo
          · exact hindices
          · exact hupdating
          · simp
          · exact nofun
        · apply Sound.rebuilt
          · intro image slot other hslot
            exact absurd hslot.1 (Nat.not_lt_zero _)
          · exact hundo
          · exact hindices
          · exact hupdating
          · simp
          · exact nofun
      · exact .rebuilt h.distinct hundo hindices hupdating h.pins h.demand count

theorem Sound.beginUpdate (h : cache.Sound) : (GalleryThumbnailCache.beginUpdate cache).1.Sound := by
  show ((if cache.updating then _ else _ : Transaction _ _ _) cache).1.Sound
  split
  · exact h
  · next hupdating =>
      obtain ⟨hundo, hindices⟩ := h.indices (by simpa using hupdating)
      have hrecorded : Recorded _ { cache with
          priorDemand := cache.demandSlots, priorFirst := cache.demandFirst, updating := true } :=
        .fresh hundo hindices fun _ => ⟨rfl, rfl⟩
      exact ⟨h.pins, h.demand, _, ⟨h.formed.congr rfl rfl rfl, h.distinct, hrecorded⟩, h.distinct,
        h.demand⟩

theorem Sound.rollback (h : cache.Sound) : cache.rollbackUpdate.Sound := by
  cases hupdating : cache.updating with
  | false =>
      rw [rollbackUpdate, if_pos hupdating]
      exact h
  | true =>
      obtain ⟨origin, htracked, hdistinct, hdemand⟩ := h.tracked
      obtain ⟨hrestored, hquiet, hundo, hindices⟩ := htracked.rollback hupdating
      apply Sound.settled hrestored.formed _ hundo hindices hquiet
      · rw [hrestored.demandSlots]
        exact hrestored.pinned
      · rw [hrestored.demandSlots, hrestored.size]
        exact hdemand
      · exact hdistinct.of_holds fun _ _ => hrestored.holds.mp

theorem admit_refused {images : List Nat} {first : Nat} (h : cache.size < images.length) :
    (GalleryThumbnailCache.admitImages images first cache).1 = cache := by
  show ((if images.length > cache.size then _ else _ : Transaction _ _ _) cache).1 = _
  rw [if_pos h]
  rfl

theorem Sound.perform [Inhabited A] [DecidableEq A] (h : cache.Sound) {operation : CacheOperation A M}
    (hallowed : cache.Allowed operation) : (cache.perform operation).Sound := by
  cases operation with
  | configure count identity => exact h.configure hallowed count identity
  | clear => exact h.clear
  | beginUpdate => exact h.beginUpdate
  | commitUpdate => exact h.commit
  | rollbackUpdate => exact h.rollback
  | admitImages images first =>
      obtain ⟨origin, htracked, hrest⟩ := h.tracked
      cases Nat.lt_or_ge cache.size images.length with
      | inl hlong =>
          rw [GalleryThumbnailCache.perform, admit_refused hlong]
          exact h
      | inr hlength =>
          obtain ⟨after, hrun, hadmitted, hafter⟩ :=
            htracked.admitImages hlength (hallowed hlength).1 (hallowed hlength).2
          rw [GalleryThumbnailCache.perform, hrun]
          exact ⟨hadmitted.demandSlots, hadmitted.demand_lt, origin, hafter, hrest⟩
  | complete position image meaning semanticIdentity bank semanticBank =>
      obtain ⟨origin, htracked, -⟩ := h.tracked
      exact h.sameDemand (htracked.complete hallowed).2 fun _ hother => (hother.complete hallowed).1
  | updateSemantics position semanticIdentity semanticBank =>
      obtain ⟨origin, htracked, -⟩ := h.tracked
      exact h.sameDemand (htracked.updateSemantics h.demand).2 fun _ hother =>
        (hother.updateSemantics h.demand).1

end Mmltk.Explore.GalleryThumbnailCache
