import Mmltk.Explore.ThumbnailCache

namespace Mmltk.Explore.GalleryThumbnailCache

open Mmltk.Foundation

variable {A M : Type} {cache after origin : GalleryThumbnailCache A M} {entry : CacheEntry M}
  {slot other image : Nat}

/-! The chains find what the slots hold, through every single edit of a slot. -/

def Occupied (cache : GalleryThumbnailCache A M) (slot : Nat) : Prop :=
  (cache.entries slot).position ≠ absent

def Holds (cache : GalleryThumbnailCache A M) (slot image : Nat) : Prop :=
  slot < cache.size ∧ cache.Occupied slot ∧ (cache.entries slot).compiledIndex = image

/-- No image in two slots. -/
def Distinct (cache : GalleryThumbnailCache A M) : Prop :=
  ∀ image slot other, cache.Holds slot image → cache.Holds other image → slot = other

structure Formed (cache : GalleryThumbnailCache A M) : Prop where
  buckets : 0 < cache.size → 0 < cache.chains.buckets
  indexed : cache.chains.Indexed cache.size cache.Occupied cache.home

/-- `Formed` but for one slot, which stands in no chain. -/
structure Unlinked (cache : GalleryThumbnailCache A M) (slot : Nat) : Prop where
  buckets : 0 < cache.size → 0 < cache.chains.buckets
  indexed : cache.chains.Indexed cache.size (fun other => cache.Occupied other ∧ other ≠ slot)
    cache.home

theorem home_lt (h : 0 < cache.chains.buckets) : cache.home slot < cache.chains.buckets :=
  Nat.mod_lt _ h

theorem Formed.lookup_holds (h : cache.Formed) (hlookup : cache.lookup image = some slot) :
    cache.Holds slot image := by
  rw [lookup] at hlookup
  split at hlookup
  · cases hlookup
  · next hbuckets =>
      have hlt : cache.bucket image < cache.chains.buckets :=
        Nat.mod_lt _ (Nat.pos_of_ne_zero hbuckets)
      obtain ⟨hslot, hoccupied, -, hholds⟩ := h.indexed.search_some hlt hlookup
      exact ⟨hslot, hoccupied, by simpa using hholds⟩

theorem Formed.not_holds (h : cache.Formed) (hlookup : cache.lookup image = none) :
    ¬ cache.Holds slot image := by
  intro hholds
  have hbuckets := h.buckets (Nat.zero_lt_of_lt hholds.1)
  rw [lookup, if_neg (Nat.pos_iff_ne_zero.mp hbuckets)] at hlookup
  have hhome : cache.home slot = cache.bucket image := by rw [home, hholds.2.2]
  have hmiss := h.indexed.search_none (Nat.mod_lt _ hbuckets) hlookup hholds.1 hholds.2.1 hhome
  simp [hholds.2.2] at hmiss

theorem Formed.lookup_iff (h : cache.Formed) (hdistinct : cache.Distinct) :
    cache.lookup image = some slot ↔ cache.Holds slot image := by
  constructor
  · exact h.lookup_holds
  · intro hholds
    cases hlookup : cache.lookup image with
    | none => exact absurd hholds (h.not_holds hlookup)
    | some found => rw [hdistinct image found slot (h.lookup_holds hlookup) hholds]

theorem Formed.lookup_none_iff (h : cache.Formed) :
    cache.lookup image = none ↔ ∀ slot, ¬ cache.Holds slot image := by
  constructor
  · intro hlookup slot
    exact h.not_holds hlookup
  · intro hholds
    cases hlookup : cache.lookup image with
    | none => rfl
    | some found => exact absurd (h.lookup_holds hlookup) (hholds found)

/-- Two caches with the same slots find the same images. -/
theorem Formed.lookup_eq (h : cache.Formed) (hdistinct : cache.Distinct) (hafter : after.Formed)
    (hsame : ∀ image slot, after.Holds slot image ↔ cache.Holds slot image) (image : Nat) :
    after.lookup image = cache.lookup image := by
  cases hlookup : cache.lookup image with
  | none =>
      rw [hafter.lookup_none_iff]
      intro slot
      rw [hsame]
      exact h.not_holds hlookup
  | some found =>
      have hdistinct' : after.Distinct := by
        intro image slot other hslot hother
        exact hdistinct image slot other ((hsame _ _).mp hslot) ((hsame _ _).mp hother)
      rw [hafter.lookup_iff hdistinct', hsame]
      exact h.lookup_holds hlookup

theorem erase_eq (cache : GalleryThumbnailCache A M) (slot : Nat) :
    cache.erase slot = { cache with chains := (cache.erase slot).chains } := by
  unfold erase
  split <;> rfl

theorem save_eq (cache : GalleryThumbnailCache A M) (slot : Nat) :
    cache.save slot =
      { cache with undo := (cache.save slot).undo, undoIndices := (cache.save slot).undoIndices } := by
  unfold save
  split <;> rfl

@[simp] theorem erase_size : (cache.erase slot).size = cache.size := by rw [erase_eq]

@[simp] theorem erase_entries : (cache.erase slot).entries = cache.entries := by rw [erase_eq]

@[simp] theorem erase_buckets : (cache.erase slot).chains.buckets = cache.chains.buckets := by
  unfold erase
  split
  · rfl
  · exact Chains.erase_buckets

@[simp] theorem erase_home : (cache.erase slot).home = cache.home := by
  funext other
  simp [home, bucket]

@[simp] theorem save_size : (cache.save slot).size = cache.size := by rw [save_eq]

@[simp] theorem save_entries : (cache.save slot).entries = cache.entries := by rw [save_eq]

@[simp] theorem save_chains : (cache.save slot).chains = cache.chains := by rw [save_eq]

@[simp] theorem save_updating : (cache.save slot).updating = cache.updating := by rw [save_eq]

@[simp] theorem setEntry_self : (cache.setEntry slot entry).entries slot = entry :=
  Function.update_self ..

theorem setEntry_of_ne (h : other ≠ slot) :
    (cache.setEntry slot entry).entries other = cache.entries other :=
  Function.update_of_ne h ..

theorem setEntry_home_of_ne (h : other ≠ slot) :
    (cache.setEntry slot entry).home other = cache.home other := by
  rw [home, home, setEntry_of_ne h]
  rfl

theorem setEntry_occupied_of_ne (h : other ≠ slot) :
    (cache.setEntry slot entry).Occupied other ↔ cache.Occupied other := by
  rw [Occupied, setEntry_of_ne h]
  rfl

theorem Formed.congr (h : cache.Formed) (hsize : after.size = cache.size)
    (hentries : after.entries = cache.entries) (hchains : after.chains = cache.chains) :
    after.Formed := by
  have hhome : after.home = cache.home := by
    funext other
    rw [home, home, bucket, bucket, hentries, hchains]
  have hoccupied : after.Occupied = cache.Occupied := by
    funext other
    rw [Occupied, Occupied, hentries]
  constructor
  · rw [hsize, hchains]
    exact h.buckets
  · rw [hsize, hchains, hhome, hoccupied]
    exact h.indexed

/-- Nothing but the occupancy and the image of a slot matters to the chains. -/
theorem Formed.setEntry (h : cache.Formed)
    (hposition : entry.position = absent ↔ (cache.entries slot).position = absent)
    (himage : entry.compiledIndex = (cache.entries slot).compiledIndex) :
    (cache.setEntry slot entry).Formed := by
  refine ⟨h.buckets, h.indexed.congr ?_ ?_⟩
  · intro other _
    rcases eq_or_ne other slot with rfl | hne
    · rw [Occupied, setEntry_self]
      exact not_congr hposition
    · exact setEntry_occupied_of_ne hne
  · intro other _ _
    rcases eq_or_ne other slot with rfl | hne
    · rw [home, home, setEntry_self, himage]
      rfl
    · exact setEntry_home_of_ne hne

theorem Formed.erase (h : cache.Formed) (hlt : slot < cache.size) :
    (cache.erase slot).Unlinked slot := by
  refine ⟨by simpa using h.buckets, ?_⟩
  rw [erase_home, erase_size]
  have hoccupied : (cache.erase slot).Occupied = cache.Occupied := by
    funext other
    rw [Occupied, Occupied, erase_entries]
  rw [hoccupied, GalleryThumbnailCache.erase]
  split
  · next habsent =>
      apply h.indexed.congr
      · intro other _
        constructor
        · exact fun hother => hother.1
        · intro hother
          exact ⟨hother, fun heq => hother (heq ▸ habsent)⟩
      · intro other _ _
        rfl
  · next hoccupied =>
      exact h.indexed.erase hlt hoccupied (home_lt (h.buckets (Nat.zero_lt_of_lt hlt)))

theorem Unlinked.setEntry (h : cache.Unlinked slot) (entry : CacheEntry M) :
    (cache.setEntry slot entry).Unlinked slot := by
  refine ⟨h.buckets, h.indexed.congr ?_ ?_⟩
  · intro other _
    rcases eq_or_ne other slot with rfl | hne
    · simp
    · rw [setEntry_occupied_of_ne hne]
  · intro other _ hother
    exact setEntry_home_of_ne hother.2

theorem Unlinked.formed (h : cache.Unlinked slot) (habsent : ¬ cache.Occupied slot) :
    cache.Formed := by
  refine ⟨h.buckets, h.indexed.congr ?_ ?_⟩
  · intro other _
    constructor
    · intro hother
      exact ⟨hother, fun heq => habsent (heq ▸ hother)⟩
    · exact fun hother => hother.1
  · intro other _ _
    rfl

theorem Unlinked.link (h : cache.Unlinked slot) (hlt : slot < cache.size)
    (hoccupied : cache.Occupied slot) : (cache.link slot).Formed := by
  have hbuckets := h.buckets (Nat.zero_lt_of_lt hlt)
  have hhome : cache.home slot < cache.chains.buckets := home_lt hbuckets
  have hpushed := h.indexed.push hlt (fun hslot => hslot.2 rfl) hhome
  refine ⟨h.buckets, hpushed.congr ?_ ?_⟩
  · intro other _
    rcases eq_or_ne other slot with rfl | hne
    · exact ⟨fun _ => .inr rfl, fun _ => hoccupied⟩
    · rw [or_iff_left hne, and_iff_left hne]
      rfl
  · intro other _ _
    rcases eq_or_ne other slot with rfl | hne
    · rw [Function.update_self]
      rfl
    · rw [Function.update_of_ne hne]
      rfl

theorem Formed.replace (h : cache.Formed) (hlt : slot < cache.size) :
    (cache.replace slot image).Formed := by
  have hsaved : (cache.save slot).Formed := h.congr (by simp) (by simp) (by simp)
  have herased : ((cache.save slot).erase slot).Unlinked slot := hsaved.erase (by simpa using hlt)
  have hunlinked := herased.setEntry
    { CacheEntry.initial with position := 0, compiledIndex := image }
  refine hunlinked.link (by simpa [GalleryThumbnailCache.setEntry] using hlt) ?_
  rw [Occupied, setEntry_self]
  exact (by decide : 0 ≠ absent)

theorem Formed.restore (h : cache.Formed) (hlt : slot < cache.size) :
    (cache.restore slot entry).Formed := by
  have hunlinked := (h.erase hlt).setEntry entry
  rw [GalleryThumbnailCache.restore]
  split
  · next habsent =>
      apply hunlinked.formed
      rw [Occupied, setEntry_self]
      exact not_not.mpr habsent
  · next hoccupied =>
      refine hunlinked.link (by simpa [GalleryThumbnailCache.setEntry] using hlt) ?_
      rw [Occupied, setEntry_self]
      exact hoccupied

theorem linkUpTo_eq (cache : GalleryThumbnailCache A M) (count : Nat) :
    cache.linkUpTo count = { cache with chains := (cache.linkUpTo count).chains } := by
  induction count with
  | zero => rfl
  | succ count ih =>
      rw [linkUpTo]
      split
      · exact ih
      · exact congrArg (fun linked => { linked with chains := ((cache.linkUpTo count).link count).chains })
          ih

theorem linkUpTo_buckets (cache : GalleryThumbnailCache A M) (count : Nat) :
    (cache.linkUpTo count).chains.buckets = cache.chains.buckets := by
  induction count with
  | zero => rfl
  | succ count ih =>
      rw [linkUpTo]
      split
      · exact ih
      · exact ih

theorem linkUpTo_indexed {buckets : Nat} (hempty : cache.chains = .empty buckets)
    (hbuckets : 0 < buckets) (count : Nat) (hcount : count ≤ cache.size) :
    (cache.linkUpTo count).chains.Indexed cache.size
      (fun slot => cache.Occupied slot ∧ slot < count) cache.home := by
  induction count with
  | zero =>
      rw [linkUpTo, hempty]
      exact .empty buckets fun slot _ hslot => Nat.not_lt_zero slot hslot.2
  | succ count ih =>
      have ih := ih (Nat.le_of_succ_le hcount)
      have hentries : (cache.linkUpTo count).entries = cache.entries := by rw [linkUpTo_eq]
      have hhome : (cache.linkUpTo count).home = cache.home := by
        funext slot
        rw [home, home, bucket, bucket, linkUpTo_buckets, hentries]
      have hlinked : (cache.linkUpTo count).chains.buckets = buckets := by
        rw [linkUpTo_buckets, hempty, Chains.empty_buckets]
      rw [linkUpTo]
      split
      · next habsent =>
          apply ih.congr
          · intro slot _
            constructor
            · rintro ⟨hslot, hlt⟩
              refine ⟨hslot, Nat.lt_of_le_of_ne (Nat.le_of_lt_succ hlt) ?_⟩
              rintro rfl
              exact hslot (hentries ▸ habsent)
            · rintro ⟨hslot, hlt⟩
              exact ⟨hslot, Nat.lt_succ_of_lt hlt⟩
          · intro slot _ _
            rfl
      · next hoccupied =>
          have hoccupied : cache.Occupied count := by
            rw [Occupied, ← hentries]
            exact hoccupied
          have hbucket : cache.home count < (cache.linkUpTo count).chains.buckets := by
            rw [← hhome]
            exact home_lt (by rwa [hlinked])
          have hpushed := ih.push hcount (fun hslot => Nat.lt_irrefl count hslot.2) hbucket
          rw [link, hhome]
          apply hpushed.congr
          · intro slot _
            rw [Nat.lt_succ_iff_lt_or_eq]
            constructor
            · rintro ⟨hslot, hlt | heq⟩
              · exact .inl ⟨hslot, hlt⟩
              · exact .inr heq
            · rintro (hslot | rfl)
              · exact ⟨hslot.1, .inl hslot.2⟩
              · exact ⟨hoccupied, .inr rfl⟩
          · intro slot _ _
            simp

theorem reindex_eq (cache : GalleryThumbnailCache A M) :
    cache.reindex =
      { cache with
        chains := cache.reindex.chains
        pinned := fun slot => decide (slot < cache.size) && cache.pinned slot
        undoIndices := fun slot => if slot < cache.size then cache.undoIndices slot else none } := by
  rw [reindex, linkUpTo_eq]

theorem reindex_formed (cache : GalleryThumbnailCache A M) : cache.reindex.Formed := by
  have hindexed : cache.reindex.chains.Indexed cache.size
      (fun slot => cache.Occupied slot ∧ slot < cache.size)
      fun slot => (cache.entries slot).compiledIndex % (2 * cache.size + 1) :=
    linkUpTo_indexed rfl (Nat.succ_pos _) cache.size (Nat.le_refl _)
  have hbuckets : cache.reindex.chains.buckets = 2 * cache.size + 1 := by
    rw [reindex, linkUpTo_buckets, Chains.empty_buckets]
  constructor
  · intro _
    rw [hbuckets]
    exact Nat.succ_pos _
  · have hsize : cache.reindex.size = cache.size := by rw [reindex_eq]
    have hentries : cache.reindex.entries = cache.entries := by rw [reindex_eq]
    rw [hsize]
    apply Chains.Indexed.congr hindexed
    · intro slot hlt
      rw [Occupied, hentries, and_iff_left hlt]
      rfl
    · intro slot _ _
      rw [home, bucket, hbuckets, hentries]

end Mmltk.Explore.GalleryThumbnailCache
