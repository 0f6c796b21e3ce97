import Mathlib.Data.Finset.Card

namespace Mmltk.Foundation

/-! Tables of open addresses: a key is searched from its slot on, around the end of the table. -/

variable {κ : Type} [DecidableEq κ] {size : Nat} {slots : Nat → Option κ} {key : κ}

/-- From a slot on, the first that is free or has the key. -/
def probe (size : Nat) (slots : Nat → Option κ) (key : κ) : Nat → Nat → Option Nat
  | 0, _ => none
  | fuel + 1, slot =>
      match slots slot with
      | none => some slot
      | some other => if other = key then some slot else probe size slots key fuel ((slot + 1) % size)

/-- Where the search for a key ends. -/
def Stops (slots : Nat → Option κ) (key : κ) (slot : Nat) : Prop :=
  ∀ other ∈ slots slot, other = key

theorem probe_stops {fuel slot : Nat} (h : Stops slots key slot) :
    probe size slots key (fuel + 1) slot = some slot := by
  rw [probe]
  cases hslot : slots slot with
  | none => rfl
  | some other => exact if_pos (h other hslot)

theorem probe_passes {fuel slot : Nat} (h : ¬ Stops slots key slot) :
    probe size slots key (fuel + 1) slot = probe size slots key fuel ((slot + 1) % size) := by
  rw [probe]
  cases hslot : slots slot with
  | none => exact absurd (fun other hother => by rw [hslot] at hother; contradiction) h
  | some other =>
      refine if_neg fun hsame => h fun item hitem => ?_
      rw [hslot, Option.mem_some_iff] at hitem
      exact hitem ▸ hsame

/-- The search ends at the first slot where it can. -/
theorem probe_first {start fuel distance : Nat}
    (h : ∃ stop, distance ≤ stop ∧ stop < distance + fuel ∧
      Stops slots key ((start + stop) % size)) :
    ∃ stop, distance ≤ stop ∧
      probe size slots key fuel ((start + distance) % size) = some ((start + stop) % size) ∧
      Stops slots key ((start + stop) % size) ∧
      ∀ between, distance ≤ between → between < stop →
        ¬ Stops slots key ((start + between) % size) := by
  induction fuel generalizing distance with
  | zero =>
      obtain ⟨stop, hle, hlt, -⟩ := h
      omega
  | succ fuel ih =>
      by_cases hhere : Stops slots key ((start + distance) % size)
      · exact ⟨distance, Nat.le_refl _, probe_stops hhere, hhere, fun _ _ _ => by omega⟩
      · obtain ⟨stop, hle, hlt, hstops⟩ := h
        have hne : stop ≠ distance := fun hsame => hhere (hsame ▸ hstops)
        obtain ⟨found, hfound, hprobe, hends, hbetween⟩ :=
          @ih (distance + 1) ⟨stop, by omega, by omega, hstops⟩
        refine ⟨found, by omega, ?_, hends, fun between hge hless => ?_⟩
        · rw [probe_passes hhere, Nat.mod_add_mod, Nat.add_assoc, hprobe]
        · rcases Nat.eq_or_lt_of_le hge with rfl | hmore
          · exact hhere
          · exact hbetween between hmore hless

/-- From the slot of a stored key every slot up to it has another key. -/
def Chained (size : Nat) (hash : κ → Nat) (slots : Nat → Option κ) : Prop :=
  ∀ slot < size, ∀ key ∈ slots slot, ∃ distance, slot = (hash key + distance) % size ∧
    ∀ between < distance, ¬ Stops slots key ((hash key + between) % size)

variable {hash : κ → Nat}

omit [DecidableEq κ] in
theorem chained_empty : Chained size hash (fun _ => (none : Option κ)) := nofun

theorem exists_distance {slot : Nat} (start : Nat) (h : slot < size) :
    ∃ distance < size, (start + distance) % size = slot := by
  have hpos : 0 < size := Nat.zero_lt_of_lt h
  refine ⟨(slot + (size - start % size)) % size, Nat.mod_lt _ hpos, ?_⟩
  have hmod := Nat.mod_lt start hpos
  rw [Nat.add_mod_mod, ← Nat.mod_add_mod, Nat.add_left_comm, Nat.add_sub_of_le (Nat.le_of_lt hmod),
    Nat.add_mod_right, Nat.mod_eq_of_lt h]

/-- With a free slot every search ends: at the key, or where it would be. -/
theorem probe_ends (hfree : ∃ slot < size, slots slot = none) (h : Chained size hash slots)
    (key : κ) : ∃ slot < size, probe size slots key size (hash key % size) = some slot ∧
      (slots slot = some key ∨ slots slot = none ∧ (∀ other < size, slots other ≠ some key) ∧
        Chained size hash (Function.update slots slot (some key))) := by
  obtain ⟨free, hlt, hnone⟩ := hfree
  obtain ⟨distance, hdistance, hat⟩ := exists_distance (hash key) hlt
  obtain ⟨stop, -, hprobe, hstops, hbetween⟩ := (@probe_first _ _ size slots key (hash key) size 0)
    ⟨distance, Nat.zero_le _, by omega, fun other hother => by
      rw [hat, hnone] at hother
      contradiction⟩
  rw [Nat.add_zero] at hprobe
  refine ⟨_, Nat.mod_lt _ (Nat.zero_lt_of_lt hlt), hprobe, ?_⟩
  cases hfound : slots ((hash key + stop) % size) with
  | some other => exact .inl (congrArg some (hstops other hfound))
  | none =>
      refine .inr ⟨rfl, fun other hother hsome => ?_, ?_⟩
      · -- The key's own chain would have ended the search.
        obtain ⟨own, rfl, hchain⟩ := h other hother key hsome
        rcases Nat.lt_trichotomy own stop with hearly | rfl | hlate
        · refine hbetween own (Nat.zero_le _) hearly fun item hitem => ?_
          rw [hsome, Option.mem_some_iff] at hitem
          exact hitem.symm
        · rw [hfound] at hsome
          contradiction
        · refine hchain stop hlate fun item hitem => ?_
          rw [hfound] at hitem
          contradiction
      · have hkeep : ∀ {item slot}, ¬ Stops slots item slot →
            ¬ Stops (Function.update slots ((hash key + stop) % size) (some key)) item slot := by
          intro item slot hpasses hupdated
          refine hpasses fun other hother => ?_
          have hne : slot ≠ (hash key + stop) % size := fun hsame => by
            rw [hsame, hfound] at hother
            contradiction
          exact hupdated other (by rwa [Function.update_of_ne hne])
        intro slot hslot item hitem
        rcases eq_or_ne slot ((hash key + stop) % size) with rfl | hne
        · rw [Function.update_self, Option.mem_some_iff] at hitem
          exact ⟨stop, hitem ▸ rfl, fun between hless =>
            hkeep (hitem ▸ hbetween between (Nat.zero_le _) hless)⟩
        · rw [Function.update_of_ne hne] at hitem
          obtain ⟨own, hown, hchain⟩ := h slot hslot item hitem
          exact ⟨own, hown, fun between hless => hkeep (hchain between hless)⟩

/-! A table that is not full has a free slot. -/

def occupied (size : Nat) (slots : Nat → Option κ) : Finset Nat :=
  (Finset.range size).filter fun slot => (slots slot).isSome

omit [DecidableEq κ] in
theorem exists_free (h : (occupied size slots).card < size) : ∃ slot < size, slots slot = none := by
  by_contra hnone
  have hall : occupied size slots = Finset.range size := by
    refine Finset.filter_true_of_mem fun slot hslot => ?_
    rw [Option.isSome_iff_ne_none]
    exact fun hempty => hnone ⟨slot, Finset.mem_range.mp hslot, hempty⟩
  rw [hall, Finset.card_range] at h
  exact Nat.lt_irrefl _ h

omit [DecidableEq κ] in
theorem occupied_update_le (slot : Nat) :
    (occupied size (Function.update slots slot (some key))).card ≤
      (occupied size slots).card + 1 := by
  refine (Finset.card_le_card fun other hother => ?_).trans
    (Finset.card_insert_le slot (occupied size slots))
  rw [Finset.mem_insert]
  rcases eq_or_ne other slot with rfl | hne
  · exact .inl rfl
  · rw [occupied, Finset.mem_filter, Function.update_of_ne hne] at hother
    exact .inr (Finset.mem_filter.mpr hother)

end Mmltk.Foundation
