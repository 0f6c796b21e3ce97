import Mmltk.Transport.BrowserRecords

namespace Mmltk.Transport

namespace BrowserRecordRing

variable {ring : BrowserRecordRing} {list : List BrowserOutputRecord}
  {record : BrowserOutputRecord}

/-! The records between the two cursors, oldest first. -/

structure Holds (ring : BrowserRecordRing) (list : List BrowserOutputRecord) : Prop where
  read_lt : ring.read < kBrowserRecordRingCapacity
  size_le : ring.size ≤ kBrowserRecordRingCapacity
  write_eq : ring.write = ring.slot ring.size
  length_eq : list.length = ring.size
  slots : ∀ offset, offset < ring.size → ring.records (ring.slot offset) = list[offset]?

theorem Holds.empty : Holds .empty [] where
  read_lt := by decide
  size_le := by decide
  write_eq := rfl
  length_eq := rfl
  slots offset h := absurd h (Nat.not_lt_zero _)

/-- Offsets below the capacity name different slots, whatever the wrap-around. -/
theorem slot_inj {offset other : Nat} (hoffset : offset < kBrowserRecordRingCapacity)
    (hother : other < kBrowserRecordRingCapacity) (h : ring.slot offset = ring.slot other) :
    offset = other := by
  simp only [slot, kBrowserRecordRingCapacity] at *
  omega

theorem Holds.present (h : Holds ring list) (offset : Nat) (hoffset : offset < ring.size) :
    ∃ hlist : offset < list.length, ring.records (ring.slot offset) = some list[offset] := by
  have hlist : offset < list.length := h.length_eq ▸ hoffset
  exact ⟨hlist, (h.slots offset hoffset).trans (List.getElem?_eq_getElem hlist)⟩

/-! The search. -/

def same (record prior : BrowserOutputRecord) : Bool :=
  prior.stateSystem = record.stateSystem && prior.stateEvent = record.stateEvent

theorem findState_eq (record : BrowserOutputRecord) (h : Holds ring list) {offset remaining : Nat}
    (hend : offset + remaining = ring.size) :
    ring.findState record offset remaining =
      ((list.drop offset).findIdx? (same record)).bind fun index =>
        list[offset + index]?.map fun prior => (offset + index, prior) := by
  induction remaining generalizing offset with
  | zero =>
      rw [List.drop_eq_nil_of_le (by rw [h.length_eq]; omega)]
      rfl
  | succ remaining ih =>
      obtain ⟨hlist, hslot⟩ := h.present offset (by omega)
      rw [findState, hslot, List.drop_eq_getElem_cons hlist, List.findIdx?_cons]
      have hnext := @ih (offset + 1) (by omega)
      simp only
      split
      · next hdiffers =>
          have hsame : same record list[offset] = false := by
            rw [same, Bool.and_eq_false_iff, decide_eq_false_iff_not, decide_eq_false_iff_not]
            exact hdiffers
          rw [hnext, hsame]
          cases (list.drop (offset + 1)).findIdx? (same record) with
          | none => rfl
          | some index =>
              have hshift : offset + 1 + index = offset + (index + 1) := by omega
              simp [hshift]
      · next hequal =>
          have hsame : same record list[offset] = true := by
            rw [same, Bool.and_eq_true, decide_eq_true_eq, decide_eq_true_eq]
            exact ⟨not_not.mp fun hne => hequal (.inl hne), not_not.mp fun hne => hequal (.inr hne)⟩
          rw [hsame]
          simp [List.getElem?_eq_getElem hlist]

/-! Closing the gap. -/

theorem shift_fields (ring : BrowserRecordRing) (next remaining : Nat) :
    (ring.shift next remaining).read = ring.read ∧
      (ring.shift next remaining).write = ring.write ∧
      (ring.shift next remaining).size = ring.size := by
  induction remaining generalizing ring next with
  | zero => exact ⟨rfl, rfl, rfl⟩
  | succ remaining ih => exact ih _ _

theorem shift_slots (ring : BrowserRecordRing) {next remaining : Nat} (hnext : 0 < next)
    (hend : next + remaining ≤ kBrowserRecordRingCapacity) {offset : Nat}
    (hoffset : offset + 1 < next + remaining) :
    (ring.shift next remaining).records (ring.slot offset) =
      if offset + 1 < next then ring.records (ring.slot offset)
      else ring.records (ring.slot (offset + 1)) := by
  induction remaining generalizing ring next with
  | zero => rw [if_pos (by omega)]; rfl
  | succ remaining ih =>
      have hmoved := ih { ring with
        records := Function.update
          (Function.update ring.records (ring.slot (next - 1)) (ring.records (ring.slot next)))
          (ring.slot next) none } (Nat.succ_pos next) (by omega) (by omega)
      have hne : ∀ {left right : Nat}, left < kBrowserRecordRingCapacity →
          right < kBrowserRecordRingCapacity → left ≠ right → ring.slot left ≠ ring.slot right :=
        fun hleft hright hdiffer hsame => hdiffer (slot_inj hleft hright hsame)
      refine Eq.trans hmoved ?_
      show (if offset + 1 < next + 1 then
          Function.update (Function.update ring.records (ring.slot (next - 1))
            (ring.records (ring.slot next))) (ring.slot next) none (ring.slot offset)
        else Function.update (Function.update ring.records (ring.slot (next - 1))
            (ring.records (ring.slot next))) (ring.slot next) none (ring.slot (offset + 1))) = _
      rcases Nat.lt_trichotomy (offset + 1) next with hlt | heq | hgt
      · rw [if_pos (by omega), if_pos hlt, Function.update_of_ne (hne (by omega) (by omega) (by omega)),
          Function.update_of_ne (hne (by omega) (by omega) (by omega))]
      · subst heq
        rw [if_pos (by omega), if_neg (by omega),
          Function.update_of_ne (hne (by omega) (by omega) (by omega)), Nat.add_sub_cancel,
          Function.update_self]
      · rw [if_neg (by omega), if_neg (by omega),
          Function.update_of_ne (hne (by omega) (by omega) (by omega)),
          Function.update_of_ne (hne (by omega) (by omega) (by omega))]

theorem Holds.remove (h : Holds ring list) {offset : Nat} (hoffset : offset < ring.size) :
    Holds (ring.remove offset) (list.eraseIdx offset) := by
  obtain ⟨hread, hwrite, hsize⟩ := shift_fields ring (offset + 1) (ring.size - (offset + 1))
  have hread' : (ring.remove offset).read = ring.read := hread
  have hsize' : (ring.remove offset).size = ring.size - 1 := congrArg (· - 1) hsize
  have hwrite' : (ring.remove offset).write = ring.slot (ring.size - 1) := by
    show ((ring.shift _ _).write + kBrowserRecordRingCapacity - 1) % kBrowserRecordRingCapacity = _
    rw [hwrite, h.write_eq]
    have hread_lt := h.read_lt
    have hsize_le := h.size_le
    simp only [slot, kBrowserRecordRingCapacity] at *
    omega
  have hslot : ∀ other, (ring.remove offset).slot other = ring.slot other := by
    intro other
    rw [slot, slot, hread']
  refine ⟨hread'.symm ▸ h.read_lt, ?_, ?_, ?_, ?_⟩
  · rw [hsize']
    exact Nat.le_trans (Nat.sub_le _ _) h.size_le
  · rw [hslot, hsize', hwrite']
  · rw [List.length_eraseIdx_of_lt (h.length_eq ▸ hoffset), hsize', h.length_eq]
  · intro other hother
    rw [hsize'] at hother
    have hsize_le := h.size_le
    have hne : ring.slot other ≠ ring.slot (ring.size - 1) := fun hsame =>
      absurd (slot_inj (by omega) (by omega) hsame) (by omega)
    have hrecords : (ring.remove offset).records (ring.slot other) =
        (ring.shift (offset + 1) (ring.size - (offset + 1))).records (ring.slot other) := by
      show Function.update (ring.shift _ _).records (ring.remove offset).write none _ = _
      rw [hwrite', Function.update_of_ne hne]
    rw [hslot, hrecords, shift_slots ring (by omega) (by omega) (by omega), List.getElem?_eraseIdx]
    by_cases hbefore : other < offset
    · rw [if_pos (by omega), if_pos hbefore, h.slots other (by omega)]
    · rw [if_neg (by omega), if_neg hbefore, h.slots (other + 1) (by omega)]

theorem Holds.append (h : Holds ring list) (record : BrowserOutputRecord)
    (hroom : list.length ≠ kBrowserRecordRingCapacity) :
    Holds (ring.append record).1 (list ++ [record]) ∧ (ring.append record).2 = .enqueued := by
  have hsize : ring.size ≠ kBrowserRecordRingCapacity := h.length_eq ▸ hroom
  have hsize_le := h.size_le
  have hresult : ring.append record =
      ({ ring with
        records := Function.update ring.records ring.write (some record),
        write := (ring.write + 1) % kBrowserRecordRingCapacity,
        size := ring.size + 1 }, .enqueued) := if_neg hsize
  rw [hresult]
  refine ⟨⟨h.read_lt, by show ring.size + 1 ≤ _; omega, ?_, ?_, ?_⟩, rfl⟩
  · show (ring.write + 1) % _ = (ring.read + (ring.size + 1)) % _
    rw [h.write_eq]
    simp only [slot, kBrowserRecordRingCapacity]
    omega
  · rw [List.length_append, h.length_eq]
    rfl
  · intro offset hoffset
    show Function.update ring.records ring.write (some record) (ring.slot offset) = _
    rw [h.write_eq]
    change offset < ring.size + 1 at hoffset
    by_cases hlast : offset = ring.size
    · rw [hlast, Function.update_self, ← h.length_eq]
      simp
    · have hne : ring.slot offset ≠ ring.slot ring.size := fun hsame =>
        hlast (slot_inj (by omega) (by omega) hsame)
      rw [Function.update_of_ne hne, h.slots offset (by omega),
        List.getElem?_append_left (by rw [h.length_eq]; omega)]

theorem append_full (h : Holds ring list) (hfull : list.length = kBrowserRecordRingCapacity) :
    ring.append record =
      (ring, if record.priority = .transient then .dropped else .closePeer) :=
  if_pos (h.length_eq ▸ hfull)

theorem pop_nil (h : Holds ring []) : ring.pop = (ring, none) :=
  if_pos h.length_eq.symm

theorem Holds.pop {rest : List BrowserOutputRecord} (h : Holds ring (record :: rest)) :
    Holds ring.pop.1 rest ∧ ring.pop.2 = some record := by
  have hlength := h.length_eq
  have hsize_le := h.size_le
  have hread_lt := h.read_lt
  rw [List.length_cons] at hlength
  have hresult : ring.pop =
      ({ ring with
        records := Function.update ring.records ring.read none,
        read := (ring.read + 1) % kBrowserRecordRingCapacity,
        size := ring.size - 1 }, ring.records ring.read) := if_neg (by omega)
  have hread : ring.slot 0 = ring.read := Nat.mod_eq_of_lt h.read_lt
  rw [hresult]
  refine ⟨⟨Nat.mod_lt _ (by decide), by show ring.size - 1 ≤ _; omega, ?_, ?_, ?_⟩, ?_⟩
  · show ring.write = ((ring.read + 1) % _ + (ring.size - 1)) % _
    rw [h.write_eq]
    simp only [slot, kBrowserRecordRingCapacity] at *
    omega
  · show rest.length = ring.size - 1
    omega
  · intro offset hoffset
    change offset < ring.size - 1 at hoffset
    have hslot : ((ring.read + 1) % kBrowserRecordRingCapacity + offset) %
        kBrowserRecordRingCapacity = ring.slot (offset + 1) := by
      simp only [slot, kBrowserRecordRingCapacity]
      omega
    show Function.update ring.records ring.read none
      (((ring.read + 1) % kBrowserRecordRingCapacity + offset) % kBrowserRecordRingCapacity) = _
    have hne : ring.slot (offset + 1) ≠ ring.slot 0 := fun hsame =>
      absurd (slot_inj (by omega) (by decide) hsame) (by omega)
    rw [hslot, ← hread, Function.update_of_ne hne, h.slots (offset + 1) (by omega),
      List.getElem?_cons_succ]
  · show ring.records ring.read = some record
    rw [← hread, h.slots 0 (by omega)]
    rfl

end BrowserRecordRing

end Mmltk.Transport
