import Mathlib.Data.Finset.Card
import Mmltk.Training.GradientReducer

namespace Mmltk.Training

variable {M : Type} {layout : BucketLayout} {slotCount admitted finished : Nat}
  {slots : Nat → Slot M} {closings : List Closing} {bucketClosed : Nat → Nat}
  {slot bucket : Nat}

/-! Which contribution has closed which bucket. -/

def armedSlots (slotCount : Nat) (slots : Nat → Slot M) : Finset Nat :=
  (Finset.range slotCount).filter fun slot => (slots slot).armed = true

def closers (closings : List Closing) (bucket : Nat) : List Nat :=
  (closings.filter fun closing => closing.bucket = bucket).map Closing.contribution

structure Counting (layout : BucketLayout) (slotCount : Nat) (slots : Nat → Slot M)
    (closings : List Closing) (bucketClosed : Nat → Nat) (admitted finished : Nat) : Prop where
  range : ∀ slot, (slots slot).armed = true → slot < slotCount
  contribution_lt : ∀ slot, (slots slot).armed = true → (slots slot).contribution < admitted
  distinct : ∀ slot other, (slots slot).armed = true → (slots other).armed = true →
    (slots slot).contribution = (slots other).contribution → slot = other
  counted : finished + (armedSlots slotCount slots).card = admitted
  nodup : closings.Nodup
  valid : ∀ closing ∈ closings, closing.contribution < admitted ∧ closing.bucket < layout.size
  closed_iff : ∀ slot bucket, (slots slot).armed = true → bucket < layout.size →
    ((slots slot).closed bucket = true ↔ ⟨(slots slot).contribution, bucket⟩ ∈ closings)
  settled : ∀ contribution < admitted,
    (∀ slot, (slots slot).armed = true → (slots slot).contribution ≠ contribution) →
    ∀ bucket < layout.size, ⟨contribution, bucket⟩ ∈ closings
  bucketClosed_eq : ∀ bucket < layout.size, bucketClosed bucket = (closers closings bucket).length

theorem mem_closers {contribution : Nat} :
    contribution ∈ closers closings bucket ↔ ⟨contribution, bucket⟩ ∈ closings := by
  rw [closers, List.mem_map]
  constructor
  · intro h
    obtain ⟨closing, hmem, rfl⟩ := h
    obtain ⟨hclosing, hbucket⟩ := List.mem_filter.mp hmem
    rw [decide_eq_true_eq] at hbucket
    subst hbucket
    exact hclosing
  · intro h
    exact ⟨_, List.mem_filter.mpr ⟨h, decide_eq_true rfl⟩, rfl⟩

theorem closers_append (closings later : List Closing) (bucket : Nat) :
    closers (closings ++ later) bucket = closers closings bucket ++ closers later bucket := by
  rw [closers, List.filter_append, List.map_append]
  rfl

theorem closers_singleton (contribution bucket other : Nat) :
    closers [⟨contribution, bucket⟩] other = if bucket = other then [contribution] else [] := by
  rw [closers, List.filter_singleton]
  by_cases h : bucket = other
  · simp [h]
  · simp [h]

theorem closers_all {size : Nat} (contribution : Nat) (h : bucket < size) :
    (closers ((List.range size).map fun bucket => ⟨contribution, bucket⟩) bucket).length = 1 := by
  rw [closers, List.length_map, ← List.countP_eq_length_filter, List.countP_map]
  have hcount := List.count_eq_one_of_mem List.nodup_range (List.mem_range.mpr h)
  rw [List.count] at hcount
  rw [← hcount]
  apply List.countP_congr
  intro other _
  simp

namespace Counting

variable (h : Counting layout slotCount slots closings bucketClosed admitted finished)

include h

theorem nodup_closers (bucket : Nat) : (closers closings bucket).Nodup := by
  rw [closers]
  apply List.Nodup.map_on _ (h.nodup.filter _)
  intro closing hclosing other hother hsame
  have hleft := (List.mem_filter.mp hclosing).2
  have hright := (List.mem_filter.mp hother).2
  rw [decide_eq_true_eq] at hleft hright
  cases closing
  cases other
  simp only at hleft hright hsame
  rw [hleft, hright, hsame]

theorem closers_subset (bucket : Nat) : closers closings bucket ⊆ List.range admitted := by
  intro contribution hmem
  exact List.mem_range.mpr (h.valid _ (mem_closers.mp hmem)).1

theorem bucketClosed_le (hbucket : bucket < layout.size) : bucketClosed bucket ≤ admitted := by
  rw [h.bucketClosed_eq bucket hbucket]
  have hsub := (List.subperm_of_subset (h.nodup_closers bucket) (h.closers_subset bucket)).length_le
  rwa [List.length_range] at hsub

/-- A bucket that every admitted contribution closed lacks none of them. -/
theorem closed_by_all (hbucket : bucket < layout.size) (hfull : admitted ≤ bucketClosed bucket)
    {contribution : Nat} (hadmitted : contribution < admitted) :
    ⟨contribution, bucket⟩ ∈ closings := by
  rw [h.bucketClosed_eq bucket hbucket] at hfull
  have hsub := List.subperm_of_subset (h.nodup_closers bucket) (h.closers_subset bucket)
  have hperm := hsub.perm_of_length_le (by rwa [List.length_range])
  exact mem_closers.mp (hperm.mem_iff.mpr (List.mem_range.mpr hadmitted))

theorem all_closed_of_full (hbucket : bucket < layout.size) (hfull : admitted ≤ bucketClosed bucket)
    (harmed : (slots slot).armed = true) : (slots slot).closed bucket = true :=
  (h.closed_iff slot bucket harmed hbucket).mpr
    (h.closed_by_all hbucket hfull (h.contribution_lt slot harmed))

theorem mem_armedSlots : slot ∈ armedSlots slotCount slots ↔ (slots slot).armed = true := by
  rw [armedSlots, Finset.mem_filter, Finset.mem_range]
  exact ⟨fun hmem => hmem.2, fun harmed => ⟨h.range slot harmed, harmed⟩⟩

/-- When as many contributions finished as were admitted, every one closed every bucket. -/
theorem closed_of_finished (hfinished : finished = admitted) (hbucket : bucket < layout.size)
    {contribution : Nat} (hadmitted : contribution < admitted) :
    ⟨contribution, bucket⟩ ∈ closings := by
  apply h.settled contribution hadmitted _ bucket hbucket
  intro slot harmed
  have hcounted := h.counted
  have hempty : (armedSlots slotCount slots).card = 0 := by omega
  rw [Finset.card_eq_zero] at hempty
  have hmem := h.mem_armedSlots.mpr harmed
  rw [hempty] at hmem
  exact absurd hmem (Finset.notMem_empty slot)

theorem bucketClosed_of_finished (hfinished : finished = admitted) (hbucket : bucket < layout.size) :
    bucketClosed bucket = admitted := by
  apply Nat.le_antisymm (h.bucketClosed_le hbucket)
  rw [h.bucketClosed_eq bucket hbucket]
  have hsub : List.range admitted ⊆ closers closings bucket := by
    intro contribution hmem
    exact mem_closers.mpr (h.closed_of_finished hfinished hbucket (List.mem_range.mp hmem))
  have hlength := (List.subperm_of_subset List.nodup_range hsub).length_le
  rwa [List.length_range] at hlength

/-! What each step keeps. -/

/-- A change of a slot that leaves its place in the attempt alone. -/
theorem update_slot {value : Slot M} (harmed : value.armed = (slots slot).armed)
    (hcontribution : value.contribution = (slots slot).contribution)
    (hclosed : value.closed = (slots slot).closed) :
    Counting layout slotCount (Function.update slots slot value) closings bucketClosed admitted
      finished := by
  have hsame : ∀ other, (Function.update slots slot value other).armed = (slots other).armed ∧
      (Function.update slots slot value other).contribution = (slots other).contribution ∧
      (Function.update slots slot value other).closed = (slots other).closed := by
    intro other
    by_cases heq : other = slot
    · subst heq
      rw [Function.update_self]
      exact ⟨harmed, hcontribution, hclosed⟩
    · rw [Function.update_of_ne heq]
      exact ⟨rfl, rfl, rfl⟩
  have hslots : armedSlots slotCount (Function.update slots slot value) =
      armedSlots slotCount slots := by
    apply Finset.filter_congr
    intro other _
    rw [(hsame other).1]
  refine ⟨?_, ?_, ?_, ?_, h.nodup, h.valid, ?_, ?_, h.bucketClosed_eq⟩
  · intro other
    rw [(hsame other).1]
    exact h.range other
  · intro other
    rw [(hsame other).1, (hsame other).2.1]
    exact h.contribution_lt other
  · intro left right
    rw [(hsame left).1, (hsame left).2.1, (hsame right).1, (hsame right).2.1]
    exact h.distinct left right
  · rw [hslots]
    exact h.counted
  · intro other bucket
    rw [(hsame other).1, (hsame other).2.1, (hsame other).2.2]
    exact h.closed_iff other bucket
  · intro contribution hlt hnone
    apply h.settled contribution hlt
    intro other
    have hother := hnone other
    rw [(hsame other).1, (hsame other).2.1] at hother
    exact hother

theorem closeBucket {value : Slot M} (harmed : (slots slot).armed = true)
    (hopen : (slots slot).closed bucket = false) (hbucket : bucket < layout.size)
    (harmed' : value.armed = true) (hcontribution : value.contribution = (slots slot).contribution)
    (hclosed : value.closed = Function.update (slots slot).closed bucket true) :
    Counting layout slotCount (Function.update slots slot value)
      (closings ++ [⟨(slots slot).contribution, bucket⟩])
      (Function.update bucketClosed bucket (bucketClosed bucket + 1)) admitted finished := by
  have hsame : ∀ other, (Function.update slots slot value other).armed = (slots other).armed ∧
      (Function.update slots slot value other).contribution = (slots other).contribution := by
    intro other
    by_cases heq : other = slot
    · subst heq
      rw [Function.update_self, harmed']
      exact ⟨harmed.symm, hcontribution⟩
    · rw [Function.update_of_ne heq]
      exact ⟨rfl, rfl⟩
  have hslots : armedSlots slotCount (Function.update slots slot value) =
      armedSlots slotCount slots := by
    apply Finset.filter_congr
    intro other _
    rw [(hsame other).1]
  have hfresh : (⟨(slots slot).contribution, bucket⟩ : Closing) ∉ closings := by
    intro hmem
    rw [(h.closed_iff slot bucket harmed hbucket).mpr hmem] at hopen
    cases hopen
  refine ⟨?_, ?_, ?_, ?_, ?_, ?_, ?_, ?_, ?_⟩
  · intro other
    rw [(hsame other).1]
    exact h.range other
  · intro other
    rw [(hsame other).1, (hsame other).2]
    exact h.contribution_lt other
  · intro left right
    rw [(hsame left).1, (hsame left).2, (hsame right).1, (hsame right).2]
    exact h.distinct left right
  · rw [hslots]
    exact h.counted
  · rw [List.nodup_append]
    refine ⟨h.nodup, List.nodup_singleton _, ?_⟩
    intro closing hclosing other hother heq
    rw [List.mem_singleton] at hother
    exact hfresh (hother ▸ heq ▸ hclosing)
  · intro closing hmem
    rcases List.mem_append.mp hmem with hold | hnew
    · exact h.valid closing hold
    · rw [List.mem_singleton] at hnew
      subst hnew
      exact ⟨h.contribution_lt slot harmed, hbucket⟩
  · intro other index harmed_other hindex
    rw [(hsame other).1] at harmed_other
    rw [(hsame other).2, List.mem_append, List.mem_singleton,
      ← h.closed_iff other index harmed_other hindex]
    by_cases heq : other = slot
    · subst heq
      rw [Function.update_self, hclosed]
      by_cases hsame_bucket : index = bucket
      · subst hsame_bucket
        simp
      · rw [Function.update_of_ne hsame_bucket]
        simp [hsame_bucket]
    · rw [Function.update_of_ne heq]
      constructor
      · exact .inl
      · intro hor
        rcases hor with hclosed_other | hnew
        · exact hclosed_other
        · have hcontribution_eq := congrArg Closing.contribution hnew
          exact absurd (h.distinct other slot harmed_other harmed hcontribution_eq) heq
  · intro contribution hlt hnone index hindex
    apply List.mem_append_left
    apply h.settled contribution hlt _ index hindex
    intro other
    have hother := hnone other
    rw [(hsame other).1, (hsame other).2] at hother
    exact hother
  · intro index hindex
    rw [closers_append, closers_singleton, List.length_append]
    by_cases heq : index = bucket
    · subst heq
      rw [Function.update_self, if_pos rfl, h.bucketClosed_eq index hindex]
      rfl
    · rw [Function.update_of_ne heq, if_neg (Ne.symm heq), h.bucketClosed_eq index hindex]
      rfl

theorem arm {value : Slot M} (hslot : slot < slotCount) (hidle : (slots slot).armed = false)
    (harmed : value.armed = true) (hcontribution : value.contribution = admitted)
    (hclosed : ∀ bucket, value.closed bucket = false) :
    Counting layout slotCount (Function.update slots slot value) closings bucketClosed
      (admitted + 1) finished := by
  have hother : ∀ {other : Nat}, other ≠ slot →
      Function.update slots slot value other = slots other :=
    fun hne => Function.update_of_ne hne value slots
  have hself : Function.update slots slot value slot = value := Function.update_self slot value slots
  refine ⟨?_, ?_, ?_, ?_, h.nodup, ?_, ?_, ?_, h.bucketClosed_eq⟩
  · intro other harmed_other
    by_cases heq : other = slot
    · exact heq ▸ hslot
    · rw [hother heq] at harmed_other
      exact h.range other harmed_other
  · intro other harmed_other
    by_cases heq : other = slot
    · rw [heq, hself, hcontribution]
      exact Nat.lt_succ_self _
    · rw [hother heq] at harmed_other ⊢
      exact Nat.lt_succ_of_lt (h.contribution_lt other harmed_other)
  · intro left right hleft hright hsame
    by_cases hleft_slot : left = slot
    · by_cases hright_slot : right = slot
      · exact hleft_slot.trans hright_slot.symm
      · rw [hother hright_slot] at hright hsame
        rw [hleft_slot, hself, hcontribution] at hsame
        have hlt := h.contribution_lt right hright
        omega
    · rw [hother hleft_slot] at hleft hsame
      by_cases hright_slot : right = slot
      · rw [hright_slot, hself, hcontribution] at hsame
        have hlt := h.contribution_lt left hleft
        omega
      · rw [hother hright_slot] at hright hsame
        exact h.distinct left right hleft hright hsame
  · have hslots : armedSlots slotCount (Function.update slots slot value) =
        insert slot (armedSlots slotCount slots) := by
      apply Finset.ext
      intro other
      rw [Finset.mem_insert, h.mem_armedSlots, armedSlots, Finset.mem_filter, Finset.mem_range]
      by_cases heq : other = slot
      · subst heq
        rw [hself]
        simp [hslot, harmed]
      · rw [hother heq]
        constructor
        · exact fun hmem => .inr hmem.2
        · intro hor
          rcases hor with hsame | harmed_other
          · exact absurd hsame heq
          · exact ⟨h.range other harmed_other, harmed_other⟩
    have hfresh : slot ∉ armedSlots slotCount slots := by
      rw [h.mem_armedSlots, hidle]
      exact Bool.false_ne_true
    rw [hslots, Finset.card_insert_of_notMem hfresh, ← Nat.add_assoc, h.counted]
  · intro closing hmem
    obtain ⟨hlt, hbucket⟩ := h.valid closing hmem
    exact ⟨Nat.lt_succ_of_lt hlt, hbucket⟩
  · intro other index harmed_other hindex
    by_cases heq : other = slot
    · rw [heq, hself, hclosed, hcontribution]
      constructor
      · exact fun hfalse => nomatch hfalse
      · intro hmem
        exact absurd (h.valid _ hmem).1 (Nat.lt_irrefl _)
    · rw [hother heq] at harmed_other ⊢
      exact h.closed_iff other index harmed_other hindex
  · intro contribution hlt hnone index hindex
    have hself_ne := hnone slot
    rw [hself, hcontribution] at hself_ne
    apply h.settled contribution (by have hne := hself_ne harmed; omega) _ index hindex
    intro other harmed_other
    have hne : other ≠ slot := by
      intro heq
      rw [heq, hidle] at harmed_other
      cases harmed_other
    have hslot_ne := hnone other
    rw [hother hne] at hslot_ne
    exact hslot_ne harmed_other

theorem disarm {value : Slot M} (harmed : (slots slot).armed = true)
    (hall : ∀ bucket < layout.size, (slots slot).closed bucket = true)
    (hidle : value.armed = false) :
    Counting layout slotCount (Function.update slots slot value) closings bucketClosed admitted
      (finished + 1) := by
  have hother : ∀ {other : Nat}, other ≠ slot →
      Function.update slots slot value other = slots other :=
    fun hne => Function.update_of_ne hne value slots
  have hself : Function.update slots slot value slot = value := Function.update_self slot value slots
  have hkept : ∀ {other : Nat}, (Function.update slots slot value other).armed = true →
      Function.update slots slot value other = slots other := by
    intro other harmed_other
    apply hother
    intro heq
    rw [heq, hself, hidle] at harmed_other
    cases harmed_other
  refine ⟨?_, ?_, ?_, ?_, h.nodup, h.valid, ?_, ?_, h.bucketClosed_eq⟩
  · intro other harmed_other
    rw [hkept harmed_other] at harmed_other
    exact h.range other harmed_other
  · intro other harmed_other
    have hsame := hkept harmed_other
    rw [hsame] at harmed_other ⊢
    exact h.contribution_lt other harmed_other
  · intro left right hleft hright hsame
    rw [hkept hleft, hkept hright] at hsame
    rw [hkept hleft] at hleft
    rw [hkept hright] at hright
    exact h.distinct left right hleft hright hsame
  · have hslots : armedSlots slotCount (Function.update slots slot value) =
        (armedSlots slotCount slots).erase slot := by
      apply Finset.ext
      intro other
      rw [Finset.mem_erase, h.mem_armedSlots, armedSlots, Finset.mem_filter, Finset.mem_range]
      by_cases heq : other = slot
      · subst heq
        rw [hself, hidle]
        simp
      · rw [hother heq]
        exact ⟨fun hmem => ⟨heq, hmem.2⟩, fun hmem => ⟨h.range other hmem.2, hmem.2⟩⟩
    have hmem := h.mem_armedSlots.mpr harmed
    have hcard := Finset.card_erase_add_one hmem
    have hcounted := h.counted
    rw [hslots]
    omega
  · intro other index harmed_other hindex
    have hsame := hkept harmed_other
    rw [hsame] at harmed_other ⊢
    exact h.closed_iff other index harmed_other hindex
  · intro contribution hlt hnone index hindex
    by_cases hsame : (slots slot).contribution = contribution
    · rw [← hsame]
      exact (h.closed_iff slot index harmed hindex).mp (hall index hindex)
    · apply h.settled contribution hlt _ index hindex
      intro other harmed_other
      by_cases heq : other = slot
      · exact heq ▸ hsame
      · have hne := hnone other
        rw [hother heq] at hne
        exact hne harmed_other

theorem closeEmpty :
    Counting layout slotCount slots
      (closings ++ (List.range layout.size).map fun bucket => ⟨admitted, bucket⟩)
      (fun bucket => if bucket < layout.size then bucketClosed bucket + 1 else bucketClosed bucket)
      (admitted + 1) (finished + 1) := by
  have hfresh : ∀ closing ∈ closings, closing.contribution ≠ admitted :=
    fun closing hmem => Nat.ne_of_lt (h.valid closing hmem).1
  refine ⟨h.range, ?_, h.distinct, ?_, ?_, ?_, ?_, ?_, ?_⟩
  · exact fun slot harmed => Nat.lt_succ_of_lt (h.contribution_lt slot harmed)
  · have hcounted := h.counted
    omega
  · rw [List.nodup_append]
    refine ⟨h.nodup, List.nodup_range.map ?_, ?_⟩
    · intro left right hsame
      cases hsame
      rfl
    · intro closing hclosing other hother heq
      obtain ⟨bucket, -, rfl⟩ := List.mem_map.mp hother
      exact hfresh closing hclosing (congrArg Closing.contribution heq)
  · intro closing hmem
    rcases List.mem_append.mp hmem with hold | hnew
    · obtain ⟨hlt, hbucket⟩ := h.valid closing hold
      exact ⟨Nat.lt_succ_of_lt hlt, hbucket⟩
    · obtain ⟨bucket, hbucket, rfl⟩ := List.mem_map.mp hnew
      exact ⟨Nat.lt_succ_self _, List.mem_range.mp hbucket⟩
  · intro slot bucket harmed hbucket
    rw [h.closed_iff slot bucket harmed hbucket, List.mem_append]
    constructor
    · exact .inl
    · intro hor
      rcases hor with hold | hnew
      · exact hold
      · obtain ⟨other, -, hsame⟩ := List.mem_map.mp hnew
        have hlt := h.contribution_lt slot harmed
        have hcontribution := congrArg Closing.contribution hsame
        simp only at hcontribution
        omega
  · intro contribution hlt hnone bucket hbucket
    by_cases heq : contribution = admitted
    · subst heq
      exact List.mem_append_right _ (List.mem_map.mpr ⟨bucket, List.mem_range.mpr hbucket, rfl⟩)
    · exact List.mem_append_left _ (h.settled contribution (by omega) hnone bucket hbucket)
  · intro bucket hbucket
    simp only [if_pos hbucket]
    rw [closers_append, List.length_append, closers_all admitted hbucket,
      h.bucketClosed_eq bucket hbucket]

end Counting

end Mmltk.Training
