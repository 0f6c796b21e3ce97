import Mathlib.Data.Finset.Card

namespace Mmltk.Foundation

/-! An intrusive hash table: a head for each bucket, and for each slot the slot after it. -/

/-- `slots` in order from `start`. -/
def Threaded (next : Nat → Option Nat) : Option Nat → List Nat → Prop
  | start, [] => start = none
  | start, slot :: rest => start = some slot ∧ Threaded next (next slot) rest

namespace Threaded

variable {next next' : Nat → Option Nat} {start : Option Nat} {slots : List Nat}

theorem congr (h : Threaded next start slots) (hnext : ∀ slot ∈ slots, next' slot = next slot) :
    Threaded next' start slots := by
  induction slots generalizing start with
  | nil => exact h
  | cons slot rest ih =>
      refine ⟨h.1, ?_⟩
      rw [hnext slot (by simp)]
      apply ih h.2
      intro other hother
      exact hnext other (List.mem_cons_of_mem _ hother)

end Threaded

structure Chains where
  buckets : Nat
  head : Nat → Option Nat
  next : Nat → Option Nat

namespace Chains

variable {chains : Chains} {slot bucket fuel : Nat}

def empty (buckets : Nat) : Chains := ⟨buckets, fun _ => none, fun _ => none⟩

/-- The first slot from `start` that satisfies `holds`, in at most `fuel` steps. -/
def searchFrom (next : Nat → Option Nat) (holds : Nat → Bool) : Nat → Option Nat → Option Nat
  | _, none => none
  | 0, some _ => none
  | fuel + 1, some slot => if holds slot then some slot else searchFrom next holds fuel (next slot)

def search (chains : Chains) (holds : Nat → Bool) (fuel bucket : Nat) : Option Nat :=
  searchFrom chains.next holds fuel (chains.head bucket)

/-- The links once the one that holds `slot`, from that of `before` on, skips it. -/
def detachAfter (next : Nat → Option Nat) (slot : Nat) : Nat → Nat → Nat → Option Nat
  | 0, _ => next
  | fuel + 1, before =>
      if next before = some slot then Function.update next before (next slot)
      else
        match next before with
        | none => next
        | some following => detachAfter next slot fuel following

def erase (chains : Chains) (fuel bucket slot : Nat) : Chains :=
  if chains.head bucket = some slot then
    { chains with head := Function.update chains.head bucket (chains.next slot) }
  else
    match chains.head bucket with
    | none => chains
    | some first => { chains with next := detachAfter chains.next slot fuel first }

def push (chains : Chains) (bucket slot : Nat) : Chains :=
  { chains with
    head := Function.update chains.head bucket (some slot)
    next := Function.update chains.next slot (chains.head bucket) }

@[simp] theorem empty_buckets (buckets : Nat) : (empty buckets).buckets = buckets := rfl

@[simp] theorem erase_buckets : (chains.erase fuel bucket slot).buckets = chains.buckets := by
  unfold erase
  split
  · rfl
  · split <;> rfl

theorem searchFrom_eq {next : Nat → Option Nat} {holds : Nat → Bool} {start : Option Nat}
    {slots : List Nat} (h : Threaded next start slots) (hfuel : slots.length ≤ fuel) :
    searchFrom next holds fuel start = slots.find? holds := by
  induction slots generalizing start fuel with
  | nil =>
      cases h
      cases fuel <;> rfl
  | cons slot rest ih =>
      cases h.1
      cases fuel with
      | zero => simp at hfuel
      | succ fuel =>
          rw [searchFrom, List.find?_cons]
          cases holds slot with
          | true => rfl
          | false => exact ih h.2 (by simpa using hfuel)

theorem detachAfter_threaded {next : Nat → Option Nat} {before : Nat} {front back : List Nat}
    (h : Threaded next (some before) (before :: front ++ slot :: back))
    (hnodup : (before :: front ++ slot :: back).Nodup) (hfuel : front.length < fuel) :
    Threaded (detachAfter next slot fuel before) (some before) (before :: front ++ back) ∧
      ∀ other, other ∉ before :: front → detachAfter next slot fuel before other = next other := by
  induction front generalizing before fuel with
  | nil =>
      cases fuel with
      | zero => simp at hfuel
      | succ fuel =>
          have hnext : next before = some slot := h.2.1
          rw [detachAfter, if_pos hnext]
          constructor
          · refine ⟨rfl, ?_⟩
            rw [Function.update_self]
            apply h.2.2.congr
            intro other hother
            apply Function.update_of_ne
            intro heq
            subst heq
            simp [hother] at hnodup
          · intro other hother
            apply Function.update_of_ne
            simpa using hother
  | cons second rest ih =>
      cases fuel with
      | zero => simp at hfuel
      | succ fuel =>
          have hnext : next before = some second := h.2.1
          have hsecond : second ≠ slot := by
            intro heq
            subst heq
            simp at hnodup
          have htail : Threaded next (some second) (second :: rest ++ slot :: back) :=
            hnext ▸ h.2
          obtain ⟨hthreaded, hrest⟩ := ih htail (List.nodup_cons.mp hnodup).2
            (Nat.lt_of_succ_lt_succ hfuel)
          have hbefore : before ∉ second :: rest := by
            intro hmem
            apply (List.nodup_cons.mp hnodup).1
            exact List.mem_append_left _ hmem
          rw [detachAfter, if_neg (by simpa [hnext] using hsecond), hnext]
          constructor
          · refine ⟨rfl, ?_⟩
            show Threaded _ (detachAfter next slot fuel second before) _
            rw [hrest before hbefore, hnext]
            exact hthreaded
          · intro other hother
            apply hrest other
            exact fun hmem => hother (List.mem_cons_of_mem _ hmem)

/-- The slots below `size` that are `held` stand once each in the chain of their bucket, and no
others do. -/
def Indexed (chains : Chains) (size : Nat) (held : Nat → Prop) (bucket : Nat → Nat) : Prop :=
  ∀ b < chains.buckets, ∃ slots, Threaded chains.next (chains.head b) slots ∧ slots.Nodup ∧
    ∀ slot, slot ∈ slots ↔ slot < size ∧ held slot ∧ bucket slot = b

namespace Indexed

variable {size : Nat} {held held' : Nat → Prop} {home home' : Nat → Nat}

theorem empty (buckets : Nat) (hheld : ∀ slot < size, ¬ held slot) :
    (Chains.empty buckets).Indexed size held home := by
  intro b _
  refine ⟨[], rfl, List.nodup_nil, fun slot => ?_⟩
  constructor
  · intro h
    cases h
  · intro h
    exact absurd h.2.1 (hheld slot h.1)

theorem congr (h : chains.Indexed size held home) (hheld : ∀ slot < size, held' slot ↔ held slot)
    (hhome : ∀ slot < size, held slot → home' slot = home slot) :
    chains.Indexed size held' home' := by
  intro b hb
  obtain ⟨slots, hthreaded, hnodup, hmem⟩ := h b hb
  refine ⟨slots, hthreaded, hnodup, fun slot => (hmem slot).trans ?_⟩
  constructor
  · rintro ⟨hlt, hslot, hbucket⟩
    exact ⟨hlt, (hheld slot hlt).mpr hslot, (hhome slot hlt hslot).trans hbucket⟩
  · rintro ⟨hlt, hslot, hbucket⟩
    have hslot' := (hheld slot hlt).mp hslot
    exact ⟨hlt, hslot', (hhome slot hlt hslot').symm.trans hbucket⟩

theorem length_le {slots : List Nat} (hnodup : slots.Nodup)
    (hmem : ∀ slot ∈ slots, slot < size) : slots.length ≤ size := by
  have hsubset : slots.toFinset ⊆ Finset.range size := by
    intro slot hslot
    exact Finset.mem_range.mpr (hmem slot (List.mem_toFinset.mp hslot))
  have hcard := Finset.card_le_card hsubset
  rwa [List.toFinset_card_of_nodup hnodup, Finset.card_range] at hcard

theorem search_some {holds : Nat → Bool} (h : chains.Indexed size held home)
    (hbucket : bucket < chains.buckets) (hfound : chains.search holds size bucket = some slot) :
    slot < size ∧ held slot ∧ home slot = bucket ∧ holds slot = true := by
  obtain ⟨slots, hthreaded, hnodup, hmem⟩ := h bucket hbucket
  have hlength := length_le hnodup fun other hother => ((hmem other).mp hother).1
  rw [search, searchFrom_eq hthreaded hlength] at hfound
  obtain ⟨hlt, hheld, hhome⟩ := (hmem slot).mp (List.mem_of_find?_eq_some hfound)
  exact ⟨hlt, hheld, hhome, List.find?_some hfound⟩

theorem search_none {holds : Nat → Bool} (h : chains.Indexed size held home)
    (hbucket : bucket < chains.buckets) (hfound : chains.search holds size bucket = none)
    (hlt : slot < size) (hheld : held slot) (hhome : home slot = bucket) : holds slot = false := by
  obtain ⟨slots, hthreaded, hnodup, hmem⟩ := h bucket hbucket
  have hlength := length_le hnodup fun other hother => ((hmem other).mp hother).1
  rw [search, searchFrom_eq hthreaded hlength, List.find?_eq_none] at hfound
  simpa using hfound slot ((hmem slot).mpr ⟨hlt, hheld, hhome⟩)

theorem push (h : chains.Indexed size held home) (hlt : slot < size) (hheld : ¬ held slot)
    (hbucket : bucket < chains.buckets) :
    (chains.push bucket slot).Indexed size (fun other => held other ∨ other = slot)
      (Function.update home slot bucket) := by
  intro b hb
  obtain ⟨slots, hthreaded, hnodup, hmem⟩ := h b hb
  have hfresh : slot ∉ slots := fun hslot => hheld ((hmem slot).mp hslot).2.1
  have hkept : Threaded (chains.push bucket slot).next (chains.head b) slots := by
    apply hthreaded.congr
    intro other hother
    apply Function.update_of_ne
    exact fun heq => hfresh (heq ▸ hother)
  have hothers : ∀ other, other ≠ slot → (other ∈ slots ↔ other < size ∧
      (held other ∨ other = slot) ∧ Function.update home slot bucket other = b) := by
    intro other hne
    rw [Function.update_of_ne hne, hmem other]
    simp [hne]
  by_cases heq : b = bucket
  · subst heq
    refine ⟨slot :: slots, ⟨?_, ?_⟩, List.nodup_cons.mpr ⟨hfresh, hnodup⟩, fun other => ?_⟩
    · exact Function.update_self ..
    · show Threaded _ (Function.update chains.next slot (chains.head b) slot) slots
      rw [Function.update_self]
      exact hkept
    · rcases eq_or_ne other slot with rfl | hne
      · simp [hlt]
      · rw [List.mem_cons, or_iff_right hne]
        exact hothers other hne
  · refine ⟨slots, ?_, hnodup, fun other => ?_⟩
    · show Threaded _ (Function.update chains.head bucket (some slot) b) slots
      rw [Function.update_of_ne heq]
      exact hkept
    · rcases eq_or_ne other slot with rfl | hne
      · simp [hfresh, Ne.symm heq]
      · exact hothers other hne

theorem erase (h : chains.Indexed size held home) (hlt : slot < size) (hheld : held slot)
    (hbucket : home slot < chains.buckets) :
    (chains.erase size (home slot) slot).Indexed size (fun other => held other ∧ other ≠ slot)
      home := by
  obtain ⟨slots, hthreaded, hnodup, hmem⟩ := h (home slot) hbucket
  have hlength := length_le hnodup fun other hother => ((hmem other).mp hother).1
  obtain ⟨front, back, rfl⟩ := List.append_of_mem ((hmem slot).mpr ⟨hlt, hheld, rfl⟩)
  have hrest : (front ++ back).Nodup ∧ slot ∉ front ++ back := by
    have hperm : (front ++ slot :: back).Perm (slot :: (front ++ back)) := List.perm_middle
    have hcons := hperm.nodup_iff.mp hnodup
    exact ⟨(List.nodup_cons.mp hcons).2, (List.nodup_cons.mp hcons).1⟩
  have hself : ∀ other, other ∈ front ++ back ↔
      other < size ∧ (held other ∧ other ≠ slot) ∧ home other = home slot := by
    intro other
    have hother := hmem other
    rcases eq_or_ne other slot with rfl | hne
    · simp [hrest.2]
    · rw [and_iff_left hne, ← hother]
      simp [hne]
  have hothers : ∀ b, b ≠ home slot → ∀ other,
      (other < size ∧ held other ∧ home other = b ↔
        other < size ∧ (held other ∧ other ≠ slot) ∧ home other = b) := by
    intro b hne other
    constructor
    · rintro ⟨hother, hheld', hhome⟩
      exact ⟨hother, ⟨hheld', fun heq => hne (heq ▸ hhome).symm⟩, hhome⟩
    · rintro ⟨hother, hheld', hhome⟩
      exact ⟨hother, hheld'.1, hhome⟩
  cases front with
  | nil =>
      have hhead : chains.head (home slot) = some slot := hthreaded.1
      rw [Chains.erase, if_pos hhead]
      intro b hb
      by_cases heq : b = home slot
      · subst heq
        refine ⟨back, ?_, hrest.1, hself⟩
        show Threaded _ (Function.update chains.head _ _ _) _
        rw [Function.update_self]
        exact hthreaded.2
      · obtain ⟨others, hchain, hothersNodup, hothersMem⟩ := h b hb
        refine ⟨others, ?_, hothersNodup, fun other => (hothersMem other).trans (hothers b heq other)⟩
        show Threaded _ (Function.update chains.head _ _ _) _
        rw [Function.update_of_ne heq]
        exact hchain
  | cons first front =>
      have hhead : chains.head (home slot) = some first := hthreaded.1
      have hne : first ≠ slot := by
        intro heq
        exact hrest.2 (by simp [heq])
      have hfuel : front.length < size := by
        simp only [List.cons_append, List.length_cons, List.length_append] at hlength
        omega
      rw [hhead] at hthreaded
      obtain ⟨hdetached, hkept⟩ := detachAfter_threaded hthreaded hnodup hfuel
      rw [Chains.erase, if_neg (by simpa [hhead] using hne), hhead]
      intro b hb
      by_cases heq : b = home slot
      · subst heq
        refine ⟨first :: front ++ back, ?_, hrest.1, hself⟩
        show Threaded _ (chains.head _) _
        rw [hhead]
        exact hdetached
      · obtain ⟨others, hchain, hothersNodup, hothersMem⟩ := h b hb
        refine ⟨others, ?_, hothersNodup, fun other => (hothersMem other).trans (hothers b heq other)⟩
        apply hchain.congr
        intro other hother
        apply hkept other
        intro hfront
        have hhome := ((hmem other).mp (List.mem_append_left _ hfront)).2.2
        exact heq (((hothersMem other).mp hother).2.2.symm.trans hhome)

end Indexed

end Chains

end Mmltk.Foundation
