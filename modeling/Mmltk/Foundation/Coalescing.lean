import Mathlib.Data.List.Basic

namespace Mmltk.Foundation

/-! Bounded queues in which a newer state takes the place of an older one. -/

/-- `key` names the state a record carries in full; a record without one is discrete. -/
structure Coalescing (α K : Type) where
  capacity : Nat
  key : α → Option K
  revision : α → Nat
  transient : α → Bool

inductive Verdict where
  | kept
  | stale
  | dropped
  | refused
  deriving DecidableEq, Repr

namespace Coalescing

variable {α K : Type} [DecidableEq K] (policy : Coalescing α K)

def append (queue : List α) (record : α) : List α × Verdict :=
  if queue.length = policy.capacity then
    (queue, if policy.transient record then .dropped else .refused)
  else (queue ++ [record], .kept)

def replaces (record prior : α) : Bool :=
  (policy.key record).isSome && policy.key prior = policy.key record

def push (queue : List α) (record : α) : List α × Verdict :=
  match queue.findIdx? (policy.replaces record) with
  | none => policy.append queue record
  | some index =>
      match queue[index]? with
      | none => policy.append queue record
      | some prior =>
          if policy.revision prior ≥ policy.revision record then (queue, .stale)
          else policy.append (queue.eraseIdx index) record

inductive Request (α : Type) where
  | push (record : α)
  | pop
  deriving DecidableEq, Repr

/-- What is queued, what was taken, what was ever let in, and for every state the newest
revision pushed since its record was last taken. -/
structure Trace (α K : Type) where
  queue : List α
  taken : List α
  stored : List α
  newest : K → Option Nat
  closed : Bool

def Trace.initial : Trace α K := ⟨[], [], [], fun _ => none, false⟩

def raise (newest : K → Option Nat) (record : α) : K → Option Nat :=
  fun key =>
    if policy.key record = some key then
      some (max ((newest key).getD 0) (policy.revision record))
    else newest key

def step (trace : Trace α K) : Request α → Trace α K
  | .push record =>
      if trace.closed then trace
      else
        let result := policy.push trace.queue record
        match result.2 with
        | .kept => { trace with
            queue := result.1,
            stored := trace.stored ++ [record],
            newest := policy.raise trace.newest record }
        | .stale => { trace with newest := policy.raise trace.newest record }
        | .dropped => trace
        | .refused => { trace with closed := true }
  | .pop =>
      if trace.closed then trace
      else
        match trace.queue with
        | [] => trace
        | record :: rest => { trace with
            queue := rest,
            taken := trace.taken ++ [record],
            newest := fun key => if policy.key record = some key then none else trace.newest key }

def run (requests : List (Request α)) : Trace α K :=
  requests.foldl policy.step .initial

/-! Records that stand for no state. -/

def discrete (record : α) : Bool := (policy.key record).isNone

/-! `push` case by case. -/

variable {policy} {queue : List α} {record : α}

theorem replaces_iff {prior : α} :
    policy.replaces record prior = true ↔
      ∃ key, policy.key record = some key ∧ policy.key prior = some key := by
  rw [replaces, Bool.and_eq_true, decide_eq_true_eq]
  constructor
  · rintro ⟨hsome, hsame⟩
    obtain ⟨key, hkey⟩ := Option.isSome_iff_exists.mp hsome
    exact ⟨key, hkey, hsame.trans hkey⟩
  · rintro ⟨key, hkey, hprior⟩
    exact ⟨by rw [hkey]; rfl, hprior.trans hkey.symm⟩

variable (policy) in
/-- Either nothing queued stands for the same state, or the first such record decides. -/
theorem push_cases (queue : List α) (record : α) :
    ((∀ prior ∈ queue, policy.replaces record prior = false) ∧
        policy.push queue record = policy.append queue record) ∨
      ∃ front prior back, queue = front ++ prior :: back ∧
        policy.replaces record prior = true ∧
        (∀ other ∈ front, policy.replaces record other = false) ∧
        policy.push queue record =
          if policy.revision prior ≥ policy.revision record then (queue, .stale)
          else policy.append (front ++ back) record := by
  rw [push]
  cases hfind : queue.findIdx? (policy.replaces record) with
  | none => exact .inl ⟨fun prior hprior => List.findIdx?_eq_none_iff.mp hfind prior hprior, rfl⟩
  | some index =>
      right
      obtain ⟨hindex, hreplaces, hbefore⟩ := List.findIdx?_eq_some_iff_getElem.mp hfind
      refine ⟨queue.take index, queue[index], queue.drop (index + 1), ?_, hreplaces, ?_, ?_⟩
      · rw [List.getElem_cons_drop, List.take_append_drop]
      · intro other hother
        obtain ⟨position, hposition, rfl⟩ := List.mem_iff_getElem.mp hother
        rw [List.length_take] at hposition
        rw [List.getElem_take]
        simpa using hbefore position (by omega)
      · simp only [List.getElem?_eq_getElem hindex, List.eraseIdx_eq_take_drop_succ]

/-- A record that is not kept leaves the queue as it was. -/
theorem push_unchanged (h : (policy.push queue record).2 ≠ .kept) (hbounded : queue.length ≤ policy.capacity) :
    (policy.push queue record).1 = queue := by
  rcases push_cases policy queue record with
    ⟨-, hpush⟩ | ⟨front, prior, back, hqueue, -, -, hpush⟩
  · rw [hpush, append] at h ⊢
    split at h
    · next hfull => rw [if_pos hfull]
    · exact absurd rfl h
  · rw [hpush] at h ⊢
    split
    · rfl
    · next hnewer =>
        have hroom : (front ++ back).length ≠ policy.capacity := by
          rw [hqueue] at hbounded
          simp only [List.length_append, List.length_cons] at hbounded ⊢
          omega
        rw [if_neg hnewer, append, if_neg hroom] at h
        exact absurd rfl h

/-- Only a record that needs one place more than there is, and may not be lost, is refused. -/
theorem push_refused_iff (hbounded : queue.length ≤ policy.capacity) :
    (policy.push queue record).2 = .refused ↔
      queue.length = policy.capacity ∧ policy.transient record = false ∧
        ∀ prior ∈ queue, policy.replaces record prior = false := by
  rcases push_cases policy queue record with
    ⟨hfresh, hpush⟩ | ⟨front, prior, back, hqueue, hreplaces, -, hpush⟩
  · rw [hpush, append]
    by_cases hfull : queue.length = policy.capacity
    · rw [if_pos hfull]
      cases htransient : policy.transient record with
      | false => exact ⟨fun _ => ⟨hfull, rfl, hfresh⟩, fun _ => rfl⟩
      | true => exact ⟨fun h => (nomatch h), fun h => (nomatch h.2.1)⟩
    · rw [if_neg hfull]
      exact ⟨fun h => (nomatch h), fun h => absurd h.1 hfull⟩
  · constructor
    · intro hrefused
      have hroom : (front ++ back).length ≠ policy.capacity := by
        rw [hqueue] at hbounded
        simp only [List.length_append, List.length_cons] at hbounded ⊢
        omega
      rw [hpush, append, if_neg hroom] at hrefused
      split at hrefused
      · cases hrefused
      · cases hrefused
    · intro h
      rw [h.2.2 prior (by simp [hqueue])] at hreplaces
      cases hreplaces

/-! What holds of every run. -/

structure Sound (policy : Coalescing α K) (trace : Trace α K) : Prop where
  bounded : trace.queue.length ≤ policy.capacity
  unique : trace.queue.Pairwise fun left right =>
    policy.key left = none ∨ policy.key left ≠ policy.key right
  newest : ∀ key record, record ∈ trace.queue → policy.key record = some key →
    trace.newest key = some (policy.revision record)
  absent : ∀ key, (∀ record ∈ trace.queue, policy.key record ≠ some key) →
    trace.newest key = none
  ordered : (trace.taken ++ trace.queue).filter policy.discrete =
    trace.stored.filter policy.discrete

omit [DecidableEq K] in
theorem Sound.initial : Sound policy (.initial : Trace α K) where
  bounded := Nat.zero_le _
  unique := List.Pairwise.nil
  newest _ _ hmem := (List.not_mem_nil hmem).elim
  absent _ _ := rfl
  ordered := rfl

omit [DecidableEq K] in
theorem append_kept (h : (policy.append queue record).2 = .kept) :
    queue.length ≠ policy.capacity ∧ (policy.append queue record).1 = queue ++ [record] := by
  rw [append] at h ⊢
  split at h
  · split at h
    · cases h
    · cases h
  · next hroom =>
      rw [if_neg hroom]
      exact ⟨hroom, rfl⟩

omit [DecidableEq K] in
theorem append_not_stale : (policy.append queue record).2 ≠ .stale := by
  rw [append]
  split
  · split
    · exact fun h => nomatch h
    · exact fun h => nomatch h
  · exact fun h => nomatch h

/-- A newly stored record, after whatever it replaces has left the queue. -/
theorem Sound.store {trace : Trace α K} (h : Sound policy trace) {rest : List α}
    (hlength : rest.length < policy.capacity) (hsublist : rest.Sublist trace.queue)
    (hfresh : ∀ prior ∈ rest, policy.replaces record prior = false)
    (hothers : ∀ prior ∈ trace.queue, prior ∉ rest → policy.replaces record prior = true ∧
      policy.revision prior ≤ policy.revision record)
    (hdiscrete : rest.filter policy.discrete = trace.queue.filter policy.discrete) :
    Sound policy { trace with
      queue := rest ++ [record], stored := trace.stored ++ [record],
      newest := policy.raise trace.newest record } where
  bounded := by
    rw [List.length_append]
    exact hlength
  unique := by
    rw [List.pairwise_append]
    refine ⟨h.unique.sublist hsublist, List.pairwise_singleton _ _, ?_⟩
    intro left hleft right hright
    rw [List.mem_singleton] at hright
    subst hright
    cases hkey : policy.key left with
    | none => exact .inl rfl
    | some key =>
        right
        intro hsame
        have hreplaces := replaces_iff.mpr ⟨key, hsame.symm, hkey⟩
        rw [hfresh left hleft] at hreplaces
        cases hreplaces
  newest key other hother hkey := by
    show policy.raise trace.newest record key = _
    rw [raise]
    rcases List.mem_append.mp hother with hrest | hlast
    · have hne : policy.key record ≠ some key := by
        intro hsame
        have hreplaces := replaces_iff.mpr ⟨key, hsame, hkey⟩
        rw [hfresh other hrest] at hreplaces
        cases hreplaces
      rw [if_neg hne]
      exact h.newest key other (hsublist.subset hrest) hkey
    · rw [List.mem_singleton] at hlast
      subst hlast
      rw [if_pos hkey]
      congr 1
      apply Nat.max_eq_right
      by_cases hprior : ∃ prior ∈ trace.queue, policy.key prior = some key
      · obtain ⟨prior, hmem, hprior_key⟩ := hprior
        have hout : prior ∉ rest := by
          intro hin
          have hreplaces := replaces_iff.mpr ⟨key, hkey, hprior_key⟩
          rw [hfresh prior hin] at hreplaces
          cases hreplaces
        rw [h.newest key prior hmem hprior_key]
        exact (hothers prior hmem hout).2
      · rw [h.absent key fun prior hmem hsame => hprior ⟨prior, hmem, hsame⟩]
        exact Nat.zero_le _
  absent key hnone := by
    show policy.raise trace.newest record key = _
    have hne : policy.key record ≠ some key := hnone record (by simp)
    rw [raise, if_neg hne]
    apply h.absent
    intro prior hmem hsame
    by_cases hin : prior ∈ rest
    · exact hnone prior (List.mem_append_left _ hin) hsame
    · obtain ⟨other, hrecord, hprior⟩ := replaces_iff.mp (hothers prior hmem hin).1
      exact hne (hrecord.trans (hprior.symm.trans hsame))
  ordered := by
    show (trace.taken ++ (rest ++ [record])).filter _ = (trace.stored ++ [record]).filter _
    rw [← List.append_assoc, List.filter_append, List.filter_append trace.stored,
      ← h.ordered, List.filter_append, List.filter_append, hdiscrete]

theorem Sound.step {trace : Trace α K} (h : Sound policy trace) (request : Request α) :
    Sound policy (policy.step trace request) := by
  cases request with
  | pop =>
      rw [Coalescing.step]
      split
      · exact h
      split
      · exact h
      next record rest hqueue =>
      have hunique := h.unique
      rw [hqueue, List.pairwise_cons] at hunique
      refine ⟨?_, hunique.2, ?_, ?_, ?_⟩
      · have hbounded := h.bounded
        rw [hqueue, List.length_cons] at hbounded
        exact Nat.le_of_succ_le hbounded
      · intro key other hother hkey
        have hne : policy.key record ≠ some key := by
          intro hsame
          rcases hunique.1 other hother with hnone | hdiffer
          · rw [hsame] at hnone
            cases hnone
          · exact hdiffer (hsame.trans hkey.symm)
        show (if policy.key record = some key then none else trace.newest key) = _
        rw [if_neg hne]
        exact h.newest key other (hqueue ▸ List.mem_cons_of_mem _ hother) hkey
      · intro key hnone
        show (if policy.key record = some key then none else trace.newest key) = none
        split
        · rfl
        next hne =>
        apply h.absent
        intro other hother
        rw [hqueue] at hother
        rcases List.mem_cons.mp hother with rfl | hrest
        · exact hne
        · exact hnone other hrest
      · rw [← h.ordered, hqueue, List.append_assoc]
        rfl
  | push record =>
      rw [Coalescing.step]
      split
      · exact h
      simp only
      rcases push_cases policy trace.queue record with
        ⟨hfresh, hpush⟩ | ⟨front, prior, back, hqueue, hreplaces, hbefore, hpush⟩
      · rw [hpush]
        split
        · next hkept =>
            obtain ⟨hroom, hresult⟩ := append_kept hkept
            rw [hresult]
            apply h.store
            · exact Nat.lt_of_le_of_ne h.bounded hroom
            · exact List.Sublist.refl _
            · exact hfresh
            · intro other hmem hout
              exact absurd hmem hout
            · rfl
        · next hstale => exact absurd hstale append_not_stale
        · exact h
        · exact ⟨h.bounded, h.unique, h.newest, h.absent, h.ordered⟩
      · obtain ⟨key, hkey, hprior⟩ := replaces_iff.mp hreplaces
        have hmem : prior ∈ trace.queue := by
          rw [hqueue]
          simp
        rw [hpush]
        by_cases hstale : policy.revision prior ≥ policy.revision record
        · rw [if_pos hstale]
          refine ⟨h.bounded, h.unique, ?_, ?_, h.ordered⟩
          · intro other record' hmem' hkey'
            show policy.raise trace.newest record other = _
            rw [raise]
            split
            · next hsame =>
                rw [h.newest other record' hmem' hkey']
                congr 1
                have hnewest := h.newest key prior hmem hprior
                rw [hkey] at hsame
                cases hsame
                have hrevision : policy.revision prior = policy.revision record' :=
                  Option.some.inj (hnewest.symm.trans (h.newest key record' hmem' hkey'))
                rw [Option.getD_some, ← hrevision]
                exact Nat.max_eq_left hstale
            · exact h.newest other record' hmem' hkey'
          · intro other hnone
            show policy.raise trace.newest record other = _
            rw [raise, if_neg]
            · exact h.absent other hnone
            · intro hsame
              exact hnone prior hmem (hprior.trans (hkey.symm.trans hsame))
        · rw [if_neg hstale]
          have hlength : (front ++ back).length < policy.capacity := by
            have hbounded := h.bounded
            rw [hqueue] at hbounded
            simp only [List.length_append, List.length_cons] at hbounded ⊢
            omega
          have happend : policy.append (front ++ back) record =
              ((front ++ back) ++ [record], .kept) := if_neg (Nat.ne_of_lt hlength)
          rw [happend]
          have hunique := h.unique
          rw [hqueue, List.pairwise_append, List.pairwise_cons] at hunique
          apply h.store hlength
          · rw [hqueue]
            exact List.Sublist.append_left (List.sublist_cons_self _ _) _
          · intro other hother
            rcases List.mem_append.mp hother with hfront | hback
            · exact hbefore other hfront
            · cases hcase : policy.replaces record other with
              | false => rfl
              | true =>
                  obtain ⟨other_key, hrecord, hsame⟩ := replaces_iff.mp hcase
                  rcases hunique.2.1.1 other hback with hnone | hdiffer
                  · rw [hprior] at hnone
                    cases hnone
                  · rw [hkey] at hrecord
                    exact absurd (hprior.trans (hrecord.trans hsame.symm)) hdiffer
          · intro other hother hout
            rw [hqueue] at hother
            have heq : other = prior := by
              rcases List.mem_append.mp hother with hfront | hrest
              · exact absurd (List.mem_append_left _ hfront) hout
              · rcases List.mem_cons.mp hrest with heq | hback
                · exact heq
                · exact absurd (List.mem_append_right _ hback) hout
            rw [heq]
            exact ⟨hreplaces, Nat.le_of_lt (Nat.lt_of_not_le hstale)⟩
          · have hdiscrete : policy.discrete prior = false := by
              rw [discrete, hprior]
              rfl
            rw [hqueue, List.filter_append, List.filter_append, List.filter_cons, hdiscrete]
            rfl

theorem run_sound (requests : List (Request α)) : Sound policy (policy.run requests) := by
  have hfold : ∀ trace : Trace α K, Sound policy trace →
      Sound policy (requests.foldl policy.step trace) := by
    induction requests with
    | nil => exact fun _ h => h
    | cons request rest ih =>
        intro trace h
        exact ih _ (h.step request)
  exact hfold _ .initial

theorem push_discrete (h : policy.discrete record = true) (queue : List α) :
    policy.push queue record = policy.append queue record := by
  rcases push_cases policy queue record with ⟨-, hpush⟩ | ⟨_, _, _, _, hreplaces, _⟩
  · exact hpush
  · obtain ⟨key, hkey, -⟩ := replaces_iff.mp hreplaces
    rw [discrete, hkey] at h
    cases h

theorem raise_discrete (h : policy.discrete record = true) (newest : K → Option Nat) :
    policy.raise newest record = newest := by
  funext key
  apply if_neg
  intro hkey
  rw [discrete, hkey] at h
  cases h

theorem run_push (requests : List (Request α)) (record : α) :
    policy.run (requests ++ [.push record]) = policy.step (policy.run requests) (.push record) := by
  rw [run, List.foldl_append]
  rfl

theorem run_push_closed_iff (requests : List (Request α)) (record : α)
    (hopen : (policy.run requests).closed = false) :
    (policy.run (requests ++ [.push record])).closed = true ↔
      (policy.run requests).queue.length = policy.capacity ∧ policy.transient record = false ∧
        ∀ prior ∈ (policy.run requests).queue, policy.replaces record prior = false := by
  rw [← push_refused_iff (run_sound requests : Sound policy _).bounded, run_push, step,
    if_neg (Bool.eq_false_iff.mp hopen)]
  simp only
  cases (policy.push (policy.run requests).queue record).2 with
  | kept => simp [hopen]
  | stale => simp [hopen]
  | dropped => simp [hopen]
  | refused => simp

/-- A discrete record is stored unless the queue is full; then it is dropped when it is
transient and ends the run when it is not. -/
theorem run_push_discrete (requests : List (Request α)) (h : policy.discrete record = true)
    (hopen : (policy.run requests).closed = false) :
    policy.run (requests ++ [.push record]) =
      if (policy.run requests).queue.length < policy.capacity then
        { policy.run requests with
          queue := (policy.run requests).queue ++ [record],
          stored := (policy.run requests).stored ++ [record] }
      else if policy.transient record then policy.run requests
      else { policy.run requests with closed := true } := by
  have hbounded := (run_sound requests : Sound policy _).bounded
  rw [run_push, step, if_neg (Bool.eq_false_iff.mp hopen), push_discrete h, append]
  by_cases hfull : (policy.run requests).queue.length = policy.capacity
  · rw [if_pos hfull, if_neg (Nat.not_lt.mpr (Nat.le_of_eq hfull.symm))]
    cases policy.transient record with
    | false => rfl
    | true => rfl
  · rw [if_neg hfull, if_pos (Nat.lt_of_le_of_ne hbounded hfull)]
    simp only [raise_discrete h]

end Coalescing

end Mmltk.Foundation
