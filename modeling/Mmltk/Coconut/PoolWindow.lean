import Mmltk.Coconut.ParquetPool

namespace Mmltk.Coconut

open Mmltk.Foundation
open Mmltk.Storage (insertNode insertNode_between)

/-! One window: its free map and the ranges its allocations take. -/

theorem physical_pos (size : Int) : 0 < physical size :=
  Nat.lt_of_lt_of_le Nat.one_pos (Nat.le_max_left ..)

structure Window.Accounts (window : Window) (used : List Tile) : Prop where
  tiles : Tiling window.size window.free used
  positive : ∀ range ∈ used, 0 < range.2
  covered : ∀ range ∈ used, range.1 + range.2 ≤ window.highWater
  counted : window.allocations = used.length

/-- Two windows over the same memory. -/
def Window.SameSpan (window other : Window) : Prop :=
  other.begin = window.begin ∧ other.size = window.size

/-- An address of the range where an aligned block of `count` bytes lies inside it. -/
def Window.Room (window : Window) (alignment count : Nat) (range : Tile) : Prop :=
  ∃ address, alignment ∣ address ∧ window.begin + range.1 ≤ address ∧
    address + count ≤ window.begin + range.1 + range.2

namespace Window

variable {window taken resized : Window} {used used' : List Tile} {range : Tile}
  {alignment count offset oldCount start extent limit address : Nat}
  {front back rest free : List Tile}

/-- A piece that may be empty is put back where it belongs. -/
theorem insertGap (hfront : ∀ range ∈ front, range.1 < start)
    (hback : extent ≠ 0 → ∀ range ∈ back, start < range.1) :
    (if extent ≠ 0 then insertNode (start, extent) (front ++ back) else front ++ back) =
      front ++ gap start extent ++ back := by
  rw [gap]
  by_cases hextent : extent = 0
  · rw [if_neg (not_not_intro hextent), if_pos hextent, List.append_nil]
  · rw [if_pos hextent, if_neg hextent, List.append_assoc]
    exact insertNode_between hfront (hback hextent)

theorem padding_aligned (halignment : 0 < alignment) :
    alignment ∣ window.begin + start + window.padding alignment start := by
  have hmod := Nat.mod_lt (window.begin + start) halignment
  have hdivides := Nat.div_add_mod (window.begin + start) alignment
  rw [padding]
  rcases Nat.eq_zero_or_pos ((window.begin + start) % alignment) with hzero | hpos
  · rw [hzero, Nat.sub_zero, Nat.mod_self, Nat.add_zero]
    exact Nat.dvd_of_mod_eq_zero hzero
  · rw [Nat.mod_eq_of_lt (by omega)]
    refine ⟨(window.begin + start) / alignment + 1, ?_⟩
    rw [Nat.mul_add, Nat.mul_one]
    omega

/-- The padding leads to the first aligned address. -/
theorem padding_least (halignment : 0 < alignment) (haligned : alignment ∣ address)
    (hstart : window.begin + start ≤ address) :
    window.begin + start + window.padding alignment start ≤ address := by
  obtain ⟨factor, rfl⟩ := haligned
  have hreaches : alignment ∣ window.begin + start + window.padding alignment start :=
    padding_aligned halignment
  obtain ⟨reached, hreached⟩ := hreaches
  have hpadding : window.padding alignment start < alignment := Nat.mod_lt _ halignment
  rw [hreached]
  refine Nat.mul_le_mul_left _ ?_
  by_contra hbeyond
  have hlarger : alignment * (factor + 1) ≤ alignment * reached :=
    Nat.mul_le_mul_left _ (Nat.lt_of_not_le hbeyond)
  rw [Nat.mul_add, Nat.mul_one] at hlarger
  omega

theorem fits_iff (halignment : 0 < alignment) :
    window.fits alignment count range = true ↔ window.Room alignment count range := by
  have hfits : window.fits alignment count range = true ↔
      window.padding alignment range.1 ≤ range.2 ∧
        count ≤ range.2 - window.padding alignment range.1 := by
    simp [fits]
  rw [hfits]
  constructor
  · rintro ⟨hpadding, hcount⟩
    exact ⟨window.begin + range.1 + window.padding alignment range.1, padding_aligned halignment,
      by omega, by omega⟩
  · rintro ⟨address, haligned, hbegin, hend⟩
    have hleast := padding_least halignment haligned hbegin
    omega

theorem take_eq_none_iff (halignment : 0 < alignment) :
    window.take alignment count = none ↔
      ∀ range ∈ window.free, ¬ window.Room alignment count range := by
  rw [take]
  split
  · next hnone =>
      simp only [true_iff]
      intro range hrange hroom
      exact List.find?_eq_none.mp hnone range hrange ((fits_iff halignment).mpr hroom)
  · next start extent hsome =>
      simp only [reduceCtorEq, false_iff]
      intro hall
      have hfits := List.find?_some hsome
      exact hall _ (List.mem_of_find?_eq_some hsome) ((fits_iff halignment).mp hfits)

theorem carve_eq {size padding : Nat} (h : Tiling size (front ++ (start, extent) :: back) used)
    (hcount : 0 < count) (hfits : padding + count ≤ extent) :
    (let free := eraseKey start (front ++ (start, extent) :: back)
      let free := if padding ≠ 0 then insertNode (start, padding) free else free
      if extent - padding > count then
        insertNode (start + padding + count, extent - padding - count) free
      else free) =
      front ++ (gap start padding ++
        gap (start + padding + count) (extent - padding - count)) ++ back := by
  have hfront := h.apart_front
  have hback := h.apart_back
  have herase : eraseKey start (front ++ (start, extent) :: back) = front ++ back :=
    eraseKey_eq fun range hrange =>
      Nat.ne_of_lt (Nat.lt_of_le_of_lt (Nat.le_add_right ..) (hfront range hrange))
  have hfirst : (if padding ≠ 0 then insertNode (start, padding) (front ++ back)
      else front ++ back) = front ++ gap start padding ++ back :=
    insertGap (fun range hrange => Nat.lt_of_le_of_lt (Nat.le_add_right ..) (hfront range hrange))
      fun _ range hrange => Nat.lt_of_le_of_lt (Nat.le_add_right ..) (hback range hrange)
  have hlower : ∀ range ∈ front ++ gap start padding, range.1 < start + padding + count := by
    intro range hrange
    cases List.mem_append.mp hrange with
    | inl hmem =>
        have hlt := hfront range hmem
        simp only at hlt
        omega
    | inr hmem =>
        obtain ⟨-, rfl⟩ := mem_gap.mp hmem
        simp only
        omega
  have hlast : (if extent - padding - count ≠ 0 then
        insertNode (start + padding + count, extent - padding - count)
          (front ++ gap start padding ++ back)
      else front ++ gap start padding ++ back) =
      front ++ gap start padding ++
        gap (start + padding + count) (extent - padding - count) ++ back :=
    insertGap hlower fun _ range hrange => by
      have hlt := hback range hrange
      simp only at hlt
      omega
  have hguard : (extent - padding > count) = (extent - padding - count ≠ 0) :=
    propext ⟨Nat.sub_ne_zero_of_lt, Nat.lt_of_sub_ne_zero⟩
  simp only [herase, hfirst, hguard]
  rw [hlast, List.append_assoc front]

/-- `take` carves an aligned block out of a free range. -/
theorem Accounts.take (h : window.Accounts used) (halignment : 0 < alignment) (hcount : 0 < count)
    (htake : window.take alignment count = some (offset, taken)) :
    taken.Accounts ((offset, count) :: used) ∧ alignment ∣ window.begin + offset := by
  rw [Window.take] at htake
  split at htake
  · cases htake
  next start extent hfind =>
    obtain ⟨hfits, front, back, hfree, -⟩ := List.find?_eq_some_iff_append.mp hfind
    have htiles := h.tiles
    rw [hfree] at htake htiles
    simp only [Option.some.injEq, Prod.mk.injEq] at htake
    obtain ⟨rfl, rfl⟩ := htake
    have hroom : window.padding alignment start ≤ extent ∧
        count ≤ extent - window.padding alignment start := by
      simpa [fits, Nat.not_lt] using hfits
    refine ⟨⟨?_, ?_, ?_, ?_⟩, ?_⟩
    · have hfit : window.padding alignment start + count ≤ extent := by omega
      have hcarved := htiles.carve hcount hfit
      rw [← carve_eq htiles hcount hfit] at hcarved
      exact hcarved
    · intro range hrange
      rcases List.mem_cons.mp hrange with rfl | hmem
      · exact hcount
      · exact h.positive range hmem
    · intro range hrange
      rcases List.mem_cons.mp hrange with rfl | hmem
      · exact Nat.le_max_right ..
      · exact Nat.le_trans (h.covered range hmem) (Nat.le_max_left ..)
    · exact congrArg (· + 1) h.counted
    · rw [← Nat.add_assoc]
      exact padding_aligned halignment

theorem take_span (h : window.take alignment count = some (offset, taken)) :
    window.SameSpan taken := by
  rw [Window.take] at h
  split at h
  · cases h
  · cases h
    exact ⟨rfl, rfl⟩

theorem resize_span (h : window.resize offset oldCount count = some resized) :
    window.SameSpan resized := by
  rw [Window.resize] at h
  simp only at h
  split at h
  · cases h
    exact ⟨rfl, rfl⟩
  · cases h

/-! What is free below a key, and what is free from it on. -/

theorem lowerBound_eq (hfront : ∀ range ∈ front, range.1 < limit)
    (hback : ∀ range ∈ back, limit ≤ range.1) : lowerBound limit (front ++ back) = back.head? := by
  rw [lowerBound, List.dropWhile_append_of_pos (by simpa using hfront)]
  cases back with
  | nil => rfl
  | cons first rest =>
      have hfirst : ¬ first.1 < limit := Nat.not_lt.mpr (hback first List.mem_cons_self)
      rw [List.dropWhile_cons_of_neg (by simpa using hfirst)]

theorem beforeBound_eq (hfront : ∀ range ∈ front, range.1 < limit)
    (hback : ∀ range ∈ back, limit ≤ range.1) :
    beforeBound limit (front ++ back) = front.getLast? := by
  rw [beforeBound, List.takeWhile_append_of_pos (by simpa using hfront)]
  cases back with
  | nil => rw [List.takeWhile_nil, List.append_nil]
  | cons first rest =>
      have hfirst : ¬ first.1 < limit := Nat.not_lt.mpr (hback first List.mem_cons_self)
      rw [List.takeWhile_cons_of_neg (by simpa using hfirst), List.append_nil]

/-- What joins from above: the following range, if it starts where the allocation ends. -/
theorem joinNext_spec (happart : (front ++ back).Pairwise fun earlier later =>
      earlier.1 + earlier.2 < later.1)
    (hpositive : ∀ range ∈ front ++ back, 0 < range.2) (hcount : 0 < count)
    (hfront : ∀ range ∈ front, range.1 < offset)
    (hback : ∀ range ∈ back, offset + count ≤ range.1) :
    ∃ after rest joined, back = after ++ rest ∧
      joinNext offset count (front ++ back) = (joined, front ++ rest) ∧ count ≤ joined ∧
      (∀ address, cover after address =
        if offset + count ≤ address ∧ address < offset + joined then 1 else 0) ∧
      ∀ later ∈ rest, offset + joined < later.1 := by
  have hbound := lowerBound_eq hfront fun range hrange =>
    Nat.le_trans (Nat.le_add_right ..) (hback range hrange)
  rw [joinNext, hbound]
  cases back with
  | nil =>
      refine ⟨[], [], count, rfl, rfl, Nat.le_refl _, ?_, by simp⟩
      intro address
      rw [cover_nil, if_neg (by omega)]
  | cons next rest =>
      obtain ⟨start, extent⟩ := next
      have hstart : offset + count ≤ start := hback (start, extent) List.mem_cons_self
      have hextent : 0 < extent := hpositive (start, extent) (by simp)
      have hnext := (List.pairwise_cons.mp (List.pairwise_append.mp happart).2.1).1
      simp only [List.head?_cons]
      split
      · next hjoins =>
          subst hjoins
          refine ⟨[(offset + count, extent)], rest, count + extent, rfl, ?_,
            Nat.le_add_right .., ?_, ?_⟩
          · rw [eraseKey_eq fun range hrange => Nat.ne_of_lt (by
              have hlower := hfront range hrange
              omega)]
          · intro address
            rw [cover_cons, cover_nil, Nat.zero_add, Nat.add_assoc]
          · intro later hlater
            have hlt := hnext later hlater
            simp only at hlt
            omega
      · next hgap =>
          refine ⟨[], (start, extent) :: rest, count, rfl, rfl, Nat.le_refl _, ?_, ?_⟩
          · intro address
            rw [cover_nil, if_neg (by omega)]
          · intro later hlater
            rcases List.mem_cons.mp hlater with rfl | hmem
            · simp only
              omega
            · have hlt := hnext later hmem
              simp only at hlt
              omega

/-- What joins from below: the previous range, if it ends where the allocation starts. -/
theorem joinPrevious_spec (count : Nat) (back : List Tile) (happart : front.Pairwise fun earlier later =>
      earlier.1 + earlier.2 < later.1)
    (hpositive : ∀ range ∈ front, 0 < range.2)
    (hfront : ∀ range ∈ front, range.1 + range.2 ≤ offset)
    (hback : ∀ range ∈ back, offset ≤ range.1) :
    ∃ before rest start, front = rest ++ before ∧
      joinPrevious offset count (front ++ back) =
        ((start, offset + count - start), rest ++ back) ∧ start ≤ offset ∧
      (∀ address, cover before address = if start ≤ address ∧ address < offset then 1 else 0) ∧
      ∀ earlier ∈ rest, earlier.1 + earlier.2 < start := by
  have hlower : ∀ range ∈ front, range.1 < offset := by
    intro range hrange
    have hend := hfront range hrange
    have hextent := hpositive range hrange
    omega
  rw [joinPrevious, beforeBound_eq hlower hback]
  cases List.eq_nil_or_concat front with
  | inl hnil =>
      subst hnil
      refine ⟨[], [], offset, rfl, ?_, Nat.le_refl _, ?_, by simp⟩
      · rw [Nat.add_sub_cancel_left]
        rfl
      · intro address
        rw [cover_nil, if_neg (by omega)]
  | inr hconcat =>
      obtain ⟨rest, ⟨start, extent⟩, heq⟩ := hconcat
      rw [List.concat_eq_append] at heq
      subst heq
      have hprevious := (List.pairwise_append.mp happart).2.2
      have hend : start + extent ≤ offset := hfront (start, extent) (by simp)
      simp only [List.getLast?_append, List.getLast?_singleton, Option.some_or]
      split
      · next hjoins =>
          subst hjoins
          refine ⟨[(start, extent)], rest, start, rfl, ?_, Nat.le_add_right .., ?_, ?_⟩
          · have herase : eraseKey start (rest ++ [(start, extent)] ++ back) = rest ++ back := by
              rw [List.append_assoc, List.singleton_append]
              refine eraseKey_eq fun range hrange => Nat.ne_of_lt ?_
              have hlt := hprevious range hrange (start, extent) (by simp)
              exact Nat.lt_of_le_of_lt (Nat.le_add_right ..) hlt
            rw [herase, Nat.add_assoc, Nat.add_sub_cancel_left, Nat.add_comm extent]
          · intro address
            rw [cover_cons, cover_nil, Nat.zero_add]
          · intro earlier hearlier
            exact hprevious earlier hearlier (start, extent) (by simp)
      · next hgap =>
          refine ⟨[], rest ++ [(start, extent)], offset, (List.append_nil _).symm, ?_,
            Nat.le_refl _, ?_, ?_⟩
          · rw [Nat.add_sub_cancel_left]
          · intro address
            rw [cover_nil, if_neg (by omega)]
          · intro earlier hearlier
            rcases List.mem_append.mp hearlier with hmem | hlast
            · have hlt := hprevious earlier hmem (start, extent) (by simp)
              simp only at hlt
              omega
            · rw [List.mem_singleton.mp hlast]
              exact Nat.lt_of_le_of_ne hend hgap

theorem Accounts.release (h : window.Accounts ((offset, count) :: used)) :
    (window.release offset count).Accounts used := by
  have hcount : 0 < count := h.positive _ List.mem_cons_self
  have htiles := h.tiles
  obtain ⟨front, back, hfree, hlower, hends, hback⟩ := htiles.sides hcount
  have happart := htiles.apart
  have hpositive := htiles.positive
  rw [hfree] at happart hpositive
  obtain ⟨after, rest, joined, hbackParts, hjoinNext, hjoined, hafter, hrest⟩ :=
    joinNext_spec happart hpositive hcount hlower hback
  obtain ⟨before, kept, start, hfrontParts, hjoinPrevious, hstart, hbefore, hkept⟩ :=
    joinPrevious_spec joined rest (List.pairwise_append.mp happart).1
      (fun range hrange => hpositive range (List.mem_append_left _ hrange)) hends
      fun range hrange => Nat.le_trans (Nat.le_add_right ..)
        (hback range (hbackParts ▸ List.mem_append_right _ hrange))
  have hparts : window.free = kept ++ (before ++ after) ++ rest := by
    rw [hfree, hfrontParts, hbackParts]
    simp only [List.append_assoc]
  rw [hparts] at htiles
  have hmerged := htiles.merge hcount hstart (by omega) hbefore hafter hkept hrest
  have hreleased : (window.release offset count).free =
      kept ++ (start, offset + joined - start) :: rest := by
    rw [Window.release, hfree, hjoinNext, hjoinPrevious]
    refine insertNode_between (fun range hrange => ?_) fun range hrange => ?_
    · exact Nat.lt_of_le_of_lt (Nat.le_add_right ..) (hkept range hrange)
    · have hlt := hrest range hrange
      simp only
      omega
  constructor
  · rw [hreleased]
    exact hmerged
  · exact fun range hrange => h.positive range (List.mem_cons_of_mem _ hrange)
  · exact fun range hrange => h.covered range (List.mem_cons_of_mem _ hrange)
  · have hcounted : window.allocations = used.length + 1 := h.counted
    rw [Window.release, hcounted, Nat.add_sub_cancel]

/-- What is free behind an allocation: the range that starts where it ends, if there is one. -/
theorem tail_spec (happart : (front ++ back).Pairwise fun earlier later =>
      earlier.1 + earlier.2 < later.1)
    (hpositive : ∀ range ∈ front ++ back, 0 < range.2) (hfree : window.free = front ++ back)
    (hfront : ∀ range ∈ front, range.1 < limit) (hback : ∀ range ∈ back, limit ≤ range.1) :
    ∃ after rest, back = after ++ rest ∧
      (if window.tail limit ≠ 0 then eraseKey limit window.free else window.free) =
        front ++ rest ∧
      (∀ address, cover after address =
        if limit ≤ address ∧ address < limit + window.tail limit then 1 else 0) ∧
      ∀ later ∈ rest, limit + window.tail limit < later.1 := by
  have htail : window.tail limit =
      back.head?.elim 0 fun range => if range.1 = limit then range.2 else 0 := by
    have hlower := lowerBound_eq hfront hback
    cases hhead : back.head? with
    | none => simp [tail, hfree, hlower, hhead]
    | some range => simp [tail, hfree, hlower, hhead]
  rw [hfree]
  cases back with
  | nil =>
      have htail : window.tail limit = 0 := htail
      refine ⟨[], [], rfl, ?_, ?_, by simp⟩
      · rw [if_neg (not_not_intro htail)]
      · intro address
        rw [htail, cover_nil, if_neg (by omega)]
  | cons next rest =>
      obtain ⟨start, extent⟩ := next
      have hextent : 0 < extent := hpositive (start, extent) (by simp)
      have hnext := (List.pairwise_cons.mp (List.pairwise_append.mp happart).2.1).1
      simp only [List.head?_cons, Option.elim_some] at htail
      split at htail
      · next hjoins =>
          subst hjoins
          refine ⟨[(start, extent)], rest, rfl, ?_, ?_, ?_⟩
          · rw [if_pos (by omega)]
            exact eraseKey_eq fun range hrange => Nat.ne_of_lt (hfront range hrange)
          · intro address
            rw [htail, cover_cons, cover_nil, Nat.zero_add]
          · rw [htail]
            exact hnext
      · next hgap =>
          refine ⟨[], (start, extent) :: rest, rfl, ?_, ?_, ?_⟩
          · rw [if_neg (not_not_intro htail)]
          · intro address
            rw [htail, cover_nil, if_neg (by omega)]
          · rw [htail]
            have hstart : limit ≤ start := hback (start, extent) List.mem_cons_self
            refine List.forall_mem_cons.mpr ⟨Nat.lt_of_le_of_ne hstart (Ne.symm hgap), ?_⟩
            intro later hlater
            have hlt := hnext later hlater
            simp only at hlt
            omega

theorem Accounts.resize (h : window.Accounts ((offset, oldCount) :: used)) (hcount : 0 < count)
    (hresize : window.resize offset oldCount count = some resized) :
    resized.Accounts ((offset, count) :: used) := by
  have hold : 0 < oldCount := h.positive _ List.mem_cons_self
  have htiles := h.tiles
  obtain ⟨front, back, hfree, hlower, hends, hback⟩ := htiles.sides hold
  have happart := htiles.apart
  have hpositive := htiles.positive
  rw [hfree] at happart hpositive
  obtain ⟨after, rest, hbackParts, herase, hafter, hrest⟩ :=
    tail_spec happart hpositive hfree
      (fun range hrange => Nat.lt_of_lt_of_le (hlower range hrange) (Nat.le_add_right ..)) hback
  rw [hfree, hbackParts, ← List.append_assoc] at htiles
  rw [Window.resize] at hresize
  split at hresize
  · next hfits =>
      have hrefit := htiles.refit hold hcount (Nat.le_add_right _ (window.tail (offset + oldCount)))
        (by omega) hafter hends hrest
      have hgap : (if oldCount + window.tail (offset + oldCount) > count then
            insertNode (offset + count, oldCount + window.tail (offset + oldCount) - count)
              (front ++ rest)
          else front ++ rest) =
          front ++ gap (offset + count)
            (offset + oldCount + window.tail (offset + oldCount) - (offset + count)) ++ rest := by
        have hextent : offset + oldCount + window.tail (offset + oldCount) - (offset + count) =
            oldCount + window.tail (offset + oldCount) - count := by omega
        have hguard : (oldCount + window.tail (offset + oldCount) > count) =
            (oldCount + window.tail (offset + oldCount) - count ≠ 0) :=
          propext ⟨Nat.sub_ne_zero_of_lt, Nat.lt_of_sub_ne_zero⟩
        rw [hextent]
        simp only [hguard]
        refine insertGap (fun range hrange => ?_) fun hpiece range hrange => ?_
        · exact Nat.lt_of_lt_of_le (hlower range hrange) (Nat.le_add_right ..)
        · have hlt := hrest range hrange
          omega
      simp only [herase, Option.some.injEq] at hresize
      subst hresize
      refine ⟨?_, ?_, ?_, h.counted⟩
      · simp only [hgap]
        exact hrefit
      · intro range hrange
        rcases List.mem_cons.mp hrange with rfl | hmem
        · exact hcount
        · exact h.positive range (List.mem_cons_of_mem _ hmem)
      · intro range hrange
        rcases List.mem_cons.mp hrange with rfl | hmem
        · exact Nat.le_max_right ..
        · exact Nat.le_trans (h.covered range (List.mem_cons_of_mem _ hmem)) (Nat.le_max_left ..)
  · cases hresize

end Window

end Mmltk.Coconut
