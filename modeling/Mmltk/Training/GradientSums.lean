import Mathlib.Algebra.BigOperators.Group.Finset.Basic
import Mmltk.Training.Contributions

namespace Mmltk.Training

variable {M : Type} [AddCommMonoid M] {layout : BucketLayout} {slotCount admitted : Nat}
  {slots : Nat → Slot M} {values : Nat → M} {hostUsage : Nat → Nat} {hooked : List (Hook M)}
  {slot bucket parameter : Nat} {value : Slot M}

/-! Every gradient a hook was given is in its parameter's value or still with its slot. -/

def pending (slotCount : Nat) (slots : Nat → Slot M) (parameter : Nat) : M :=
  ∑ slot ∈ Finset.range slotCount, ((slots slot).gradients parameter).getD 0

def produced (hooked : List (Hook M)) (parameter : Nat) : M :=
  ((hooked.filter fun hook => hook.parameter = parameter).map Hook.gradient).sum

structure Accounted (layout : BucketLayout) (slotCount : Nat) (slots : Nat → Slot M)
    (values : Nat → M) (hostUsage : Nat → Nat) (hooked : List (Hook M)) (admitted : Nat) :
    Prop where
  idle : ∀ slot, (slots slot).armed = false → ∀ parameter, (slots slot).gradients parameter = none
  closed_none : ∀ slot bucket, (slots slot).armed = true → (slots slot).closed bucket = true →
    ∀ parameter ∈ layout.parameters bucket, (slots slot).gradients parameter = none
  recorded : ∀ slot parameter, (slots slot).armed = true → parameter < layout.parameterCount →
    (slots slot).closed (layout.bucket parameter) = false → ∀ gradient,
      (slots slot).gradients parameter = some gradient ↔
        ⟨(slots slot).contribution, parameter, gradient⟩ ∈ hooked
  distinct : hooked.Pairwise fun left right =>
    ¬ (left.contribution = right.contribution ∧ left.parameter = right.parameter)
  valid : ∀ hook ∈ hooked, hook.contribution < admitted ∧ hook.parameter < layout.parameterCount
  sums : ∀ parameter, values parameter + pending slotCount slots parameter =
    produced hooked parameter
  usage_cases : ∀ parameter, hostUsage parameter = 0 ∨ hostUsage parameter = 1
  usage_iff : ∀ parameter, (∃ hook ∈ hooked, hook.parameter = parameter) ↔
    hostUsage parameter = 1 ∨
      ∃ slot < slotCount, ((slots slot).gradients parameter).isSome = true

theorem pending_update (hslot : slot < slotCount) (slots : Nat → Slot M) (value : Slot M)
    (parameter : Nat) :
    ∃ rest, pending slotCount slots parameter =
        ((slots slot).gradients parameter).getD 0 + rest ∧
      pending slotCount (Function.update slots slot value) parameter =
        (value.gradients parameter).getD 0 + rest := by
  have hmem : slot ∈ Finset.range slotCount := Finset.mem_range.mpr hslot
  refine ⟨∑ other ∈ (Finset.range slotCount).erase slot,
    ((slots other).gradients parameter).getD 0, ?_, ?_⟩
  · exact (Finset.add_sum_erase _ (fun other => ((slots other).gradients parameter).getD 0)
      hmem).symm
  · rw [pending, ← Finset.add_sum_erase _ _ hmem, Function.update_self]
    congr 1
    apply Finset.sum_congr rfl
    intro other hother
    rw [Function.update_of_ne (Finset.ne_of_mem_erase hother)]

theorem pending_eq_of_gradients (hsame : value.gradients parameter = (slots slot).gradients parameter) :
    pending slotCount (Function.update slots slot value) parameter =
      pending slotCount slots parameter := by
  apply Finset.sum_congr rfl
  intro other _
  by_cases heq : other = slot
  · rw [heq, Function.update_self, hsame]
  · rw [Function.update_of_ne heq]

theorem pending_eq_zero (h : ∀ slot, (slots slot).gradients parameter = none) :
    pending slotCount slots parameter = 0 := by
  apply Finset.sum_eq_zero
  intro slot _
  rw [h slot]
  rfl

theorem produced_append (hooked later : List (Hook M)) (parameter : Nat) :
    produced (hooked ++ later) parameter = produced hooked parameter + produced later parameter := by
  rw [produced, List.filter_append, List.map_append, List.sum_append]
  rfl

theorem produced_singleton_self (contribution parameter : Nat) (gradient : M) :
    produced [⟨contribution, parameter, gradient⟩] parameter = gradient := by
  rw [produced, List.filter_singleton, decide_eq_true rfl]
  exact List.sum_singleton

theorem produced_singleton_of_ne {other : Nat} (contribution : Nat) (gradient : M)
    (hne : parameter ≠ other) : produced [⟨contribution, parameter, gradient⟩] other = 0 := by
  rw [produced, List.filter_singleton, decide_eq_false hne]
  rfl

/-- A bucket that every contribution closed has nothing pending. -/
theorem Accounted.values_eq
    (h : Accounted layout slotCount slots values hostUsage hooked admitted)
    (hclosed : ∀ slot, (slots slot).armed = true → (slots slot).closed bucket = true)
    (hparameter : parameter ∈ layout.parameters bucket) :
    values parameter = produced hooked parameter := by
  rw [← h.sums parameter, pending_eq_zero, add_zero]
  intro slot
  cases harmed : (slots slot).armed with
  | false => exact h.idle slot harmed parameter
  | true => exact h.closed_none slot bucket harmed (hclosed slot harmed) parameter hparameter

/-- One slot changes without its gradients or its contribution. -/
theorem Accounted.update_slot
    (h : Accounted layout slotCount slots values hostUsage hooked admitted)
    (hgradients : value.gradients = (slots slot).gradients)
    (harmed : value.armed = (slots slot).armed)
    (hcontribution : value.contribution = (slots slot).contribution)
    (hclosed : value.closed = (slots slot).closed) :
    Accounted layout slotCount (Function.update slots slot value) values hostUsage hooked
      admitted := by
  have hsame : ∀ other,
      (Function.update slots slot value other).gradients = (slots other).gradients ∧
      (Function.update slots slot value other).armed = (slots other).armed ∧
      (Function.update slots slot value other).contribution = (slots other).contribution ∧
      (Function.update slots slot value other).closed = (slots other).closed := by
    intro other
    by_cases heq : other = slot
    · subst heq
      rw [Function.update_self]
      exact ⟨hgradients, harmed, hcontribution, hclosed⟩
    · rw [Function.update_of_ne heq]
      exact ⟨rfl, rfl, rfl, rfl⟩
  refine ⟨?_, ?_, ?_, h.distinct, h.valid, ?_, h.usage_cases, ?_⟩
  · intro other
    rw [(hsame other).1, (hsame other).2.1]
    exact h.idle other
  · intro other
    rw [(hsame other).1, (hsame other).2.1, (hsame other).2.2.2]
    exact h.closed_none other
  · intro other
    rw [(hsame other).1, (hsame other).2.1, (hsame other).2.2.1, (hsame other).2.2.2]
    exact h.recorded other
  · intro parameter
    rw [pending_eq_of_gradients (congrFun hgradients parameter)]
    exact h.sums parameter
  · intro parameter
    rw [h.usage_iff parameter]
    apply or_congr_right
    apply exists_congr
    intro other
    rw [(hsame other).1]

theorem Accounted.arm
    (h : Accounted layout slotCount slots values hostUsage hooked admitted)
    (hidle : (slots slot).armed = false)
    (hgradients : value.gradients = (slots slot).gradients)
    (hcontribution : value.contribution = admitted) :
    Accounted layout slotCount (Function.update slots slot value) values hostUsage hooked
      (admitted + 1) := by
  have hother : ∀ {other : Nat}, other ≠ slot →
      Function.update slots slot value other = slots other :=
    fun hne => Function.update_of_ne hne value slots
  have hself : Function.update slots slot value slot = value := Function.update_self slot value slots
  have hnone : ∀ parameter, value.gradients parameter = none := by
    intro parameter
    rw [hgradients]
    exact h.idle slot hidle parameter
  refine ⟨?_, ?_, ?_, h.distinct, ?_, ?_, h.usage_cases, ?_⟩
  · intro other hother_idle parameter
    by_cases heq : other = slot
    · rw [heq, hself]
      exact hnone parameter
    · rw [hother heq] at hother_idle ⊢
      exact h.idle other hother_idle parameter
  · intro other bucket harmed_other hbucket parameter hparameter
    by_cases heq : other = slot
    · rw [heq, hself]
      exact hnone parameter
    · rw [hother heq] at harmed_other hbucket ⊢
      exact h.closed_none other bucket harmed_other hbucket parameter hparameter
  · intro other parameter harmed_other hlt hopen gradient
    by_cases heq : other = slot
    · rw [heq, hself, hnone, hcontribution]
      constructor
      · exact fun hsome => nomatch hsome
      · intro hmem
        exact absurd (h.valid _ hmem).1 (Nat.lt_irrefl _)
    · rw [hother heq] at harmed_other hopen ⊢
      exact h.recorded other parameter harmed_other hlt hopen gradient
  · intro hook hmem
    obtain ⟨hlt, hparameter⟩ := h.valid hook hmem
    exact ⟨Nat.lt_succ_of_lt hlt, hparameter⟩
  · intro parameter
    rw [pending_eq_of_gradients (congrFun hgradients parameter)]
    exact h.sums parameter
  · intro parameter
    rw [h.usage_iff parameter]
    apply or_congr_right
    apply exists_congr
    intro other
    by_cases heq : other = slot
    · rw [heq, hself, hgradients]
    · rw [hother heq]

theorem Accounted.disarm
    (h : Accounted layout slotCount slots values hostUsage hooked admitted)
    (hnone : ∀ parameter, (slots slot).gradients parameter = none)
    (hgradients : value.gradients = (slots slot).gradients) (hidle : value.armed = false) :
    Accounted layout slotCount (Function.update slots slot value) values hostUsage hooked
      admitted := by
  have hother : ∀ {other : Nat}, other ≠ slot →
      Function.update slots slot value other = slots other :=
    fun hne => Function.update_of_ne hne value slots
  have hself : Function.update slots slot value slot = value := Function.update_self slot value slots
  have hkept : ∀ {other : Nat}, (Function.update slots slot value other).armed = true →
      Function.update slots slot value other = slots other := by
    intro other harmed_other
    apply hother
    intro heq
    rw [heq, hself, hidle] at harmed_other
    cases harmed_other
  refine ⟨?_, ?_, ?_, h.distinct, h.valid, ?_, h.usage_cases, ?_⟩
  · intro other hother_idle parameter
    by_cases heq : other = slot
    · rw [heq, hself, hgradients]
      exact hnone parameter
    · rw [hother heq] at hother_idle ⊢
      exact h.idle other hother_idle parameter
  · intro other bucket harmed_other
    have hsame := hkept harmed_other
    rw [hsame] at harmed_other ⊢
    exact h.closed_none other bucket harmed_other
  · intro other parameter harmed_other
    have hsame := hkept harmed_other
    rw [hsame] at harmed_other ⊢
    exact h.recorded other parameter harmed_other
  · intro parameter
    rw [pending_eq_of_gradients (congrFun hgradients parameter)]
    exact h.sums parameter
  · intro parameter
    rw [h.usage_iff parameter]
    apply or_congr_right
    apply exists_congr
    intro other
    by_cases heq : other = slot
    · rw [heq, hself, hgradients]
    · rw [hother heq]

theorem Accounted.later
    (h : Accounted layout slotCount slots values hostUsage hooked admitted) {later : Nat}
    (hle : admitted ≤ later) :
    Accounted layout slotCount slots values hostUsage hooked later := by
  refine ⟨h.idle, h.closed_none, h.recorded, h.distinct, ?_, h.sums, h.usage_cases, h.usage_iff⟩
  intro hook hmem
  obtain ⟨hlt, hparameter⟩ := h.valid hook hmem
  exact ⟨Nat.lt_of_lt_of_le hlt hle, hparameter⟩

theorem Accounted.produce
    (h : Accounted layout slotCount slots values hostUsage hooked admitted)
    (hslot : slot < slotCount) (harmed : (slots slot).armed = true)
    (hadmitted : (slots slot).contribution < admitted)
    (hdistinct : ∀ other, (slots other).armed = true →
      (slots slot).contribution = (slots other).contribution → slot = other)
    (hparameter : parameter < layout.parameterCount)
    (hnone : (slots slot).gradients parameter = none)
    (hopen : (slots slot).closed (layout.bucket parameter) = false) (gradient : M)
    (hgradients : value.gradients =
      Function.update (slots slot).gradients parameter (some gradient))
    (harmed' : value.armed = true) (hcontribution : value.contribution = (slots slot).contribution)
    (hclosed : value.closed = (slots slot).closed) :
    Accounted layout slotCount (Function.update slots slot value) values hostUsage
      (hooked ++ [⟨(slots slot).contribution, parameter, gradient⟩]) admitted := by
  have hother : ∀ {other : Nat}, other ≠ slot →
      Function.update slots slot value other = slots other :=
    fun hne => Function.update_of_ne hne value slots
  have hself : Function.update slots slot value slot = value := Function.update_self slot value slots
  have hfresh : ∀ other, (⟨(slots slot).contribution, parameter, other⟩ : Hook M) ∉ hooked := by
    intro other hmem
    rw [(h.recorded slot parameter harmed hparameter hopen other).mpr hmem] at hnone
    cases hnone
  refine ⟨?_, ?_, ?_, ?_, ?_, ?_, h.usage_cases, ?_⟩
  · intro other hidle
    by_cases heq : other = slot
    · rw [heq, hself, harmed'] at hidle
      cases hidle
    · rw [hother heq] at hidle ⊢
      exact h.idle other hidle
  · intro other bucket harmed_other hbucket index hindex
    by_cases heq : other = slot
    · rw [heq, hself, hclosed] at hbucket
      have hne : index ≠ parameter := by
        intro hsame
        rw [hsame] at hindex
        rw [layout.bucket_eq hindex, hbucket] at hopen
        cases hopen
      rw [heq, hself, hgradients, Function.update_of_ne hne]
      exact h.closed_none slot bucket harmed hbucket index hindex
    · rw [hother heq] at harmed_other hbucket ⊢
      exact h.closed_none other bucket harmed_other hbucket index hindex
  · intro other index harmed_other hindex hopen_other produced
    rw [List.mem_append, List.mem_singleton]
    by_cases heq : other = slot
    · rw [heq, hself, hclosed] at hopen_other
      rw [heq, hself, hgradients, hcontribution]
      by_cases hsame : index = parameter
      · rw [hsame, Function.update_self]
        constructor
        · intro hsome
          cases hsome
          exact .inr rfl
        · intro hor
          rcases hor with hold | hnew
          · exact absurd hold (hfresh produced)
          · cases hnew
            rfl
      · rw [Function.update_of_ne hsame, h.recorded slot index harmed hindex hopen_other]
        constructor
        · exact .inl
        · intro hor
          rcases hor with hold | hnew
          · exact hold
          · exact absurd (congrArg Hook.parameter hnew) hsame
    · rw [hother heq] at harmed_other hopen_other ⊢
      rw [h.recorded other index harmed_other hindex hopen_other]
      constructor
      · exact .inl
      · intro hor
        rcases hor with hold | hnew
        · exact hold
        · have hsame := congrArg Hook.contribution hnew
          exact absurd (hdistinct other harmed_other hsame.symm).symm heq
  · rw [List.pairwise_append]
    refine ⟨h.distinct, List.pairwise_singleton _ _, ?_⟩
    intro left hleft right hright hsame
    rw [List.mem_singleton] at hright
    rw [hright] at hsame
    obtain ⟨contribution, index, other⟩ := left
    obtain ⟨hcontribution_eq, hparameter_eq⟩ := hsame
    simp only at hcontribution_eq hparameter_eq
    rw [hcontribution_eq, hparameter_eq] at hleft
    exact hfresh other hleft
  · intro hook hmem
    rcases List.mem_append.mp hmem with hold | hnew
    · exact h.valid hook hold
    · rw [List.mem_singleton] at hnew
      rw [hnew]
      exact ⟨hadmitted, hparameter⟩
  · intro index
    by_cases hsame : index = parameter
    · obtain ⟨rest, hbefore, hafter⟩ := pending_update hslot slots value index
      have hsums := h.sums index
      rw [hbefore, hsame, hnone, Option.getD_none, zero_add] at hsums
      rw [hafter, hgradients, hsame, Function.update_self, Option.getD_some, produced_append,
        produced_singleton_self, ← hsums, add_comm gradient, add_assoc]
    · have hkept : value.gradients index = (slots slot).gradients index := by
        rw [hgradients, Function.update_of_ne hsame]
      rw [pending_eq_of_gradients hkept, produced_append,
        produced_singleton_of_ne _ _ (Ne.symm hsame), add_zero]
      exact h.sums index
  · intro index
    by_cases hsame : index = parameter
    · constructor
      · intro _
        refine .inr ⟨slot, hslot, ?_⟩
        rw [hself, hgradients, hsame, Function.update_self]
        rfl
      · intro _
        exact ⟨_, List.mem_append_right _ (List.mem_singleton.mpr rfl), hsame.symm⟩
    · have hold : (∃ hook ∈ hooked ++ [⟨(slots slot).contribution, parameter, gradient⟩],
          hook.parameter = index) ↔ ∃ hook ∈ hooked, hook.parameter = index := by
        constructor
        · intro hexists
          obtain ⟨hook, hmem, hindex⟩ := hexists
          rcases List.mem_append.mp hmem with hold | hnew
          · exact ⟨hook, hold, hindex⟩
          · rw [List.mem_singleton] at hnew
            rw [hnew] at hindex
            exact absurd hindex.symm hsame
        · intro hexists
          obtain ⟨hook, hmem, hindex⟩ := hexists
          exact ⟨hook, List.mem_append_left _ hmem, hindex⟩
      rw [hold, h.usage_iff index]
      apply or_congr_right
      apply exists_congr
      intro other
      by_cases heq : other = slot
      · rw [heq, hself, hgradients, Function.update_of_ne hsame]
      · rw [hother heq]

/-- The slot's gradients of a bucket move into the bucket's values. -/
theorem Accounted.closeBucket
    (h : Accounted layout slotCount slots values hostUsage hooked admitted)
    (hslot : slot < slotCount) (harmed : (slots slot).armed = true)
    (hgradients : value.gradients = fun parameter =>
      if parameter ∈ layout.parameters bucket then none else (slots slot).gradients parameter)
    (harmed' : value.armed = true) (hcontribution : value.contribution = (slots slot).contribution)
    (hclosed : value.closed = Function.update (slots slot).closed bucket true) :
    Accounted layout slotCount (Function.update slots slot value)
      (fun parameter =>
        if parameter ∈ layout.parameters bucket then
          match (slots slot).gradients parameter with
          | some gradient => values parameter + gradient
          | none => values parameter
        else values parameter)
      (fun parameter =>
        if parameter ∈ layout.parameters bucket ∧
            ((slots slot).gradients parameter).isSome then 1
        else hostUsage parameter)
      hooked admitted := by
  have hother : ∀ {other : Nat}, other ≠ slot →
      Function.update slots slot value other = slots other :=
    fun hne => Function.update_of_ne hne value slots
  have hself : Function.update slots slot value slot = value := Function.update_self slot value slots
  refine ⟨?_, ?_, ?_, h.distinct, h.valid, ?_, ?_, ?_⟩
  · intro other hidle
    by_cases heq : other = slot
    · rw [heq, hself, harmed'] at hidle
      cases hidle
    · rw [hother heq] at hidle ⊢
      exact h.idle other hidle
  · intro other index harmed_other hindex parameter hparameter
    by_cases heq : other = slot
    · rw [heq, hself, hgradients]
      simp only
      split
      · rfl
      · next hout =>
          rw [heq, hself, hclosed] at hindex
          have hne : index ≠ bucket := fun hsame => hout (hsame ▸ hparameter)
          rw [Function.update_of_ne hne] at hindex
          exact h.closed_none slot index harmed hindex parameter hparameter
    · rw [hother heq] at harmed_other hindex ⊢
      exact h.closed_none other index harmed_other hindex parameter hparameter
  · intro other parameter harmed_other hparameter hopen gradient
    by_cases heq : other = slot
    · rw [heq, hself, hclosed] at hopen
      have hne : layout.bucket parameter ≠ bucket := by
        intro hsame
        rw [hsame, Function.update_self] at hopen
        cases hopen
      rw [Function.update_of_ne hne] at hopen
      have hout : parameter ∉ layout.parameters bucket :=
        fun hmem => hne (layout.bucket_eq hmem)
      rw [heq, hself, hgradients, hcontribution]
      simp only [if_neg hout]
      exact h.recorded slot parameter harmed hparameter hopen gradient
    · rw [hother heq] at harmed_other hopen ⊢
      exact h.recorded other parameter harmed_other hparameter hopen gradient
  · intro parameter
    by_cases hmem : parameter ∈ layout.parameters bucket
    · obtain ⟨rest, hbefore, hafter⟩ := pending_update hslot slots value parameter
      have hsums := h.sums parameter
      rw [hbefore] at hsums
      rw [hafter, hgradients]
      simp only [if_pos hmem, Option.getD_none, zero_add]
      cases hgradient : (slots slot).gradients parameter with
      | none =>
          rw [hgradient, Option.getD_none, zero_add] at hsums
          exact hsums
      | some gradient =>
          rw [hgradient, Option.getD_some, ← add_assoc] at hsums
          exact hsums
    · have hkept : value.gradients parameter = (slots slot).gradients parameter := by
        rw [hgradients]
        exact if_neg hmem
      rw [pending_eq_of_gradients hkept]
      simp only [if_neg hmem]
      exact h.sums parameter
  · intro parameter
    split
    · exact .inr rfl
    · exact h.usage_cases parameter
  · intro parameter
    rw [h.usage_iff parameter]
    by_cases hmoved : parameter ∈ layout.parameters bucket ∧
        ((slots slot).gradients parameter).isSome
    · simp only [if_pos hmoved]
      constructor
      · exact fun _ => .inl trivial
      · exact fun _ => .inr ⟨slot, hslot, hmoved.2⟩
    · simp only [if_neg hmoved]
      apply or_congr_right
      apply exists_congr
      intro other
      by_cases heq : other = slot
      · rw [heq, hself, hgradients]
        simp only
        split
        · next hmem =>
            have hnone : ((slots slot).gradients parameter).isSome = false :=
              Bool.eq_false_iff.mpr fun hsome => hmoved ⟨hmem, hsome⟩
            rw [hnone]
            rfl
        · rfl
      · rw [hother heq]

end Mmltk.Training
