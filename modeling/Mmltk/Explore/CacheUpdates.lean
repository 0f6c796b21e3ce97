import Mmltk.Explore.CacheIndex

namespace Mmltk.Explore.GalleryThumbnailCache

variable {A M : Type} {cache after origin : GalleryThumbnailCache A M} {entry : CacheEntry M}
  {slot other image : Nat}

/-! What an update has recorded of the state it began in, and the edits that keep the record. -/

/-- `cache` differs from `origin` only in slots whose entries the open update has saved. -/
structure Recorded (origin cache : GalleryThumbnailCache A M) : Prop where
  size : cache.size = origin.size
  saved : ∀ slot, (cache.undoIndices slot).isSome ↔ slot ∈ cache.undo.map Prod.fst
  quiet : cache.updating = false → cache.undo = []
  prior : cache.updating = true →
    cache.priorDemand = origin.demandSlots ∧ cache.priorFirst = origin.demandFirst
  kept : cache.updating = true → ∀ slot < cache.size, slot ∉ cache.undo.map Prod.fst →
    cache.entries slot = origin.entries slot
  undo : ∀ record ∈ cache.undo, record.1 < cache.size ∧ record.2 = origin.entries record.1

/-- What may be changed without another `Save`. -/
def Covered (cache : GalleryThumbnailCache A M) (slot : Nat) : Prop :=
  cache.updating = true → slot ∈ cache.undo.map Prod.fst

theorem Recorded.congr (h : Recorded origin cache) (hsize : after.size = cache.size)
    (hentries : after.entries = cache.entries) (hundo : after.undo = cache.undo)
    (hindices : after.undoIndices = cache.undoIndices) (hupdating : after.updating = cache.updating)
    (hdemand : after.priorDemand = cache.priorDemand) (hfirst : after.priorFirst = cache.priorFirst) :
    Recorded origin after := by
  constructor
  · rw [hsize]
    exact h.size
  · rw [hindices, hundo]
    exact h.saved
  · rw [hupdating, hundo]
    exact h.quiet
  · rw [hupdating, hdemand, hfirst]
    exact h.prior
  · rw [hupdating, hsize, hundo, hentries]
    exact h.kept
  · rw [hundo, hsize]
    exact h.undo

theorem Recorded.covered_save (h : Recorded origin cache) : (cache.save slot).Covered slot := by
  intro hupdating
  rw [save_updating] at hupdating
  rw [save]
  split
  · next hsaved =>
      obtain hquiet | hindex := hsaved
      · exact absurd (hupdating.symm.trans hquiet) nofun
      · exact (h.saved slot).mp hindex
  · simp

theorem Recorded.save (h : Recorded origin cache) (hlt : slot < cache.size) :
    Recorded origin (cache.save slot) := by
  rw [GalleryThumbnailCache.save]
  split
  · exact h
  · next hunsaved =>
      rw [not_or] at hunsaved
      have hupdating : cache.updating = true := by simpa using hunsaved.1
      have hfresh : slot ∉ cache.undo.map Prod.fst := fun hmem => hunsaved.2 ((h.saved slot).mpr hmem)
      constructor
      · exact h.size
      · intro other
        rcases eq_or_ne other slot with rfl | hne
        · simp
        · have hother := h.saved other
          simp only [Function.update_of_ne hne, List.map_append, List.mem_append, hother]
          simp [hne]
      · intro hquiet
        cases hupdating.symm.trans hquiet
      · exact h.prior
      · intro _ other hother hnot
        apply h.kept hupdating other hother
        intro hmem
        apply hnot
        rw [List.map_append]
        exact List.mem_append_left _ hmem
      · intro record hrecord
        obtain hold | hnew := List.mem_append.mp hrecord
        · exact h.undo record hold
        · cases List.mem_singleton.mp hnew
          exact ⟨hlt, h.kept hupdating slot hlt hfresh⟩

theorem Recorded.setEntry (h : Recorded origin cache) (hcovered : cache.Covered slot) :
    Recorded origin (cache.setEntry slot entry) := by
  refine ⟨h.size, h.saved, h.quiet, h.prior, ?_, h.undo⟩
  intro hupdating other hlt hnot
  have hne : other ≠ slot := fun heq => hnot (heq ▸ hcovered hupdating)
  rw [setEntry_of_ne hne]
  exact h.kept hupdating other hlt hnot

theorem Recorded.replace (h : Recorded origin cache) (hlt : slot < cache.size) :
    Recorded origin (cache.replace slot image) := by
  have herased : Recorded origin ((cache.save slot).erase slot) := by
    rw [erase_eq]
    exact (h.save hlt).congr rfl rfl rfl rfl rfl rfl rfl
  have hcovered : ((cache.save slot).erase slot).Covered slot := by
    rw [erase_eq]
    exact h.covered_save
  exact (herased.setEntry hcovered).congr rfl rfl rfl rfl rfl rfl rfl

theorem replace_eq (cache : GalleryThumbnailCache A M) (slot image : Nat) :
    cache.replace slot image =
      { cache with
        entries := Function.update cache.entries slot
          { CacheEntry.initial with position := 0, compiledIndex := image }
        chains := (cache.replace slot image).chains
        undo := (cache.save slot).undo
        undoIndices := (cache.save slot).undoIndices } := by
  obtain ⟨undo, undoIndices, hsaved⟩ : ∃ undo undoIndices,
      cache.save slot = { cache with undo := undo, undoIndices := undoIndices } :=
    ⟨_, _, save_eq cache slot⟩
  simp only [replace, hsaved]
  rw [erase_eq]
  rfl

theorem replace_holds {held : Nat} (hlt : slot < cache.size) :
    (cache.replace slot image).Holds other held ↔
      other = slot ∧ held = image ∨ other ≠ slot ∧ cache.Holds other held := by
  rw [replace_eq]
  rcases eq_or_ne other slot with rfl | hne
  · simp [Holds, Occupied, hlt, absent, eq_comm]
  · simp [Holds, Occupied, hne]

theorem Distinct.replace (h : cache.Distinct) (hlt : slot < cache.size)
    (hfresh : ∀ other, ¬ cache.Holds other image) : (cache.replace slot image).Distinct := by
  intro held first second hfirst hsecond
  rw [replace_holds hlt] at hfirst hsecond
  obtain ⟨hslot, heq⟩ | ⟨-, hfirst⟩ := hfirst
  · obtain ⟨hslot', -⟩ | ⟨-, hsecond⟩ := hsecond
    · rw [hslot, hslot']
    · exact absurd (heq ▸ hsecond) (hfresh second)
  · obtain ⟨-, heq⟩ | ⟨-, hsecond⟩ := hsecond
    · exact absurd (heq ▸ hfirst) (hfresh first)
    · exact h held first second hfirst hsecond

theorem setEntry_holds {held : Nat} (himage : entry.compiledIndex = (cache.entries slot).compiledIndex)
    (hposition : entry.position = absent ↔ (cache.entries slot).position = absent) :
    (cache.setEntry slot entry).Holds other held ↔ cache.Holds other held := by
  rcases eq_or_ne other slot with rfl | hne
  · simp [Holds, Occupied, GalleryThumbnailCache.setEntry, himage, hposition]
  · simp [Holds, Occupied, GalleryThumbnailCache.setEntry, hne]

theorem Distinct.of_holds (h : cache.Distinct)
    (hsame : ∀ image slot, after.Holds slot image → cache.Holds slot image) : after.Distinct := by
  intro image slot other hslot hother
  exact h image slot other (hsame _ _ hslot) (hsame _ _ hother)

/-! Eviction. -/

theorem selectVictim_cases (cache : GalleryThumbnailCache A M) (attempts : Nat) :
    (∃ probes slot, 0 < probes ∧ probes ≤ attempts ∧ cache.pinned slot = false ∧
        slot = (cache.eviction + (probes - 1)) % 2 ^ 64 % cache.size ∧
        cache.selectVictim attempts =
          ({ cache with eviction := cache.eviction + probes }, some slot)) ∨
      (∀ probe < attempts, cache.pinned ((cache.eviction + probe) % 2 ^ 64 % cache.size) = true) ∧
        cache.selectVictim attempts =
          ({ cache with eviction := cache.eviction + attempts }, none) := by
  induction attempts generalizing cache with
  | zero => exact .inr ⟨nofun, rfl⟩
  | succ attempts ih =>
      rw [selectVictim]
      split
      · next hpinned =>
          obtain ⟨probes, slot, hpos, hle, hfree, hslot, heq⟩ | ⟨hall, heq⟩ :=
            ih { cache with eviction := cache.eviction + 1 }
          · refine .inl ⟨probes + 1, slot, Nat.succ_pos _, Nat.succ_le_succ hle, hfree, ?_, ?_⟩
            · rw [hslot]
              congr 2
              show cache.eviction + 1 + (probes - 1) = _
              omega
            · rw [heq]
              simp [Nat.add_assoc, Nat.add_comm 1]
          · refine .inr ⟨fun probe hlt => ?_, ?_⟩
            · cases probe with
              | zero => exact hpinned
              | succ probe =>
                  have hprobe := hall probe (Nat.lt_of_succ_lt_succ hlt)
                  rw [Nat.add_comm probe, ← Nat.add_assoc]
                  exact hprobe
            · rw [heq]
              simp [Nat.add_assoc, Nat.add_comm 1]
      · next hfree =>
          exact .inl ⟨1, _, Nat.one_pos, Nat.succ_pos _, by simpa using hfree, rfl, rfl⟩

/-- Until the counter wraps, a turn over all slots meets each of them. -/
theorem exists_probe {count start : Nat} (hlt : slot < count) (hturn : start + count ≤ 2 ^ 64) :
    ∃ probe < count, (start + probe) % 2 ^ 64 % count = slot := by
  have hcount := Nat.zero_lt_of_lt hlt
  have hstart := Nat.mod_lt start hcount
  refine ⟨(slot + (count - start % count)) % count, Nat.mod_lt _ hcount, ?_⟩
  have hprobe := Nat.mod_lt (slot + (count - start % count)) hcount
  have hrest : start + (slot + (count - start % count)) = slot + count * (start / count + 1) := by
    have hdivided := Nat.div_add_mod start count
    rw [Nat.mul_succ]
    omega
  rw [Nat.mod_eq_of_lt (b := 2 ^ 64) (by omega), Nat.add_mod_mod, hrest, Nat.add_mul_mod_self_left,
    Nat.mod_eq_of_lt hlt]

/-- What `assign` does: it finds the image, gives it a slot that is not pinned, or fails. -/
theorem assign_cases (cache : GalleryThumbnailCache A M) (image : Nat) :
    (∃ slot, cache.lookup image = some slot ∧ assign image cache = (cache, .ok slot)) ∨
      cache.lookup image = none ∧
        ((∃ slot probes, slot < cache.size ∧ cache.pinned slot = false ∧ probes ≤ cache.size ∧
            assign image cache =
              ({ cache with eviction := cache.eviction + probes }.replace slot image, .ok slot)) ∨
          (cache.eviction + cache.size ≤ 2 ^ 64 → ∀ slot < cache.size, cache.pinned slot = true) ∧
            ∃ failure, assign image cache =
              ({ cache with eviction := cache.eviction + cache.size }, .error failure)) := by
  cases hlookup : cache.lookup image with
  | some slot =>
      left
      refine ⟨slot, rfl, ?_⟩
      rw [assign, hlookup]
  | none =>
      right
      refine ⟨rfl, ?_⟩
      obtain ⟨probes, slot, hpos, hle, hfree, hslot, heq⟩ | ⟨hall, heq⟩ :=
        cache.selectVictim_cases cache.size
      · left
        refine ⟨slot, probes, ?_, hfree, hle, ?_⟩
        · rw [hslot]
          exact Nat.mod_lt _ (Nat.lt_of_lt_of_le hpos hle)
        · simp only [assign, hlookup, heq]
      · right
        constructor
        · intro hturn slot hlt
          obtain ⟨probe, hprobe, hmeets⟩ := exists_probe hlt hturn
          exact hmeets ▸ hall probe hprobe
        · refine ⟨.logicError "Explore cache demand exceeds retained physical slots", ?_⟩
          simp only [assign, hlookup, heq]

end Mmltk.Explore.GalleryThumbnailCache
