import Mmltk.Assignment.LsapSolved

namespace Mmltk.Assignment

open Mmltk.Foundation

namespace CostValue

def isFinite : CostValue → Bool
  | .finite _ => true
  | _ => false

def amount : CostValue → ℤ
  | .finite value => value
  | _ => 0

@[simp] theorem isFinite_negate (value : CostValue) : value.negate.isFinite = value.isFinite := by
  cases value <;> rfl

@[simp] theorem amount_negate (value : CostValue) : value.negate.amount = -value.amount := by
  cases value <;> rfl

theorem extended_ne_top (value : CostValue) : value.extended ≠ ⊤ ↔ value.isFinite = true := by
  cases value <;> simp [extended, isFinite]

@[simp] theorem untopD_extended (value : CostValue) : value.extended.untopD 0 = value.amount := by
  cases value <;> rfl

end CostValue

/-! The matrix as it is given, and as it is solved. -/

/-- The pairs have finite costs. -/
def FiniteCosts (numCols : Nat) (cost : Nat → CostValue) (pairs : List (Nat × Nat)) : Prop :=
  Allows (fun row column => (cost (row * numCols + column)).isFinite = true) pairs

def totalCost (numCols : Nat) (cost : Nat → CostValue) (pairs : List (Nat × Nat)) : ℤ :=
  total (fun row column => (cost (row * numCols + column)).amount) pairs

/-- The pairs are an assignment, by increasing rows, of the best total at finite costs. -/
structure BestAssignment (numRows numCols : Nat) (cost : Nat → CostValue) (maximize : Bool)
    (pairs : List (Nat × Nat)) : Prop where
  assigned : IsAssignment numRows numCols pairs
  finite : FiniteCosts numCols cost pairs
  increasing : (pairs.map Prod.fst).Pairwise (· < ·)
  best : ∀ other, IsAssignment numRows numCols other → FiniteCosts numCols cost other →
    if maximize then totalCost numCols cost other ≤ totalCost numCols cost pairs
    else totalCost numCols cost pairs ≤ totalCost numCols cost other

def orientPair (numRows numCols : Nat) (pair : Nat × Nat) : Nat × Nat :=
  if numCols < numRows then pair.swap else pair

def orientedEntry (numRows numCols : Nat) (cost : Nat → CostValue) (maximize : Bool)
    (row column : Nat) : WithTop ℤ :=
  (orientedCost numRows numCols cost maximize (row * max numRows numCols + column)).extended

variable {numRows numCols : Nat} {cost : Nat → CostValue} {maximize : Bool}
  {pairs other : List (Nat × Nat)}

theorem orientedCost_orientPair {pair : Nat × Nat} (hrow : pair.1 < numRows) :
    orientedCost numRows numCols cost maximize
        ((orientPair numRows numCols pair).1 * max numRows numCols +
          (orientPair numRows numCols pair).2) =
      if maximize then (cost (pair.1 * numCols + pair.2)).negate
      else cost (pair.1 * numCols + pair.2) := by
  rw [orientedCost, orientPair]
  by_cases hswap : numCols < numRows
  · have hmod : (pair.2 * numRows + pair.1) % numRows = pair.1 := by
      rw [Nat.add_comm, Nat.add_mul_mod_self_right, Nat.mod_eq_of_lt hrow]
    have hdiv : (pair.2 * numRows + pair.1) / numRows = pair.2 := by
      rw [Nat.add_comm, Nat.add_mul_div_right _ _ (by omega), Nat.div_eq_of_lt hrow, Nat.zero_add]
    cases maximize <;> simp [hswap, Nat.max_eq_left hswap.le, hmod, hdiv]
  · cases maximize <;> simp [hswap, Nat.max_eq_right (not_lt.mp hswap)]

theorem isAssignment_orient (h : IsAssignment numRows numCols pairs) :
    IsAssignment (min numRows numCols) (max numRows numCols)
      (pairs.map (orientPair numRows numCols)) := by
  by_cases hswap : numCols < numRows
  · have hmap : pairs.map (orientPair numRows numCols) = pairs.map Prod.swap :=
      List.map_congr_left fun _ _ => if_pos hswap
    rw [hmap, Nat.min_eq_right hswap.le, Nat.max_eq_left hswap.le]
    exact h.swap
  · have hmap : pairs.map (orientPair numRows numCols) = pairs.map id :=
      List.map_congr_left fun _ _ => if_neg hswap
    rw [hmap, List.map_id, Nat.min_eq_left (not_lt.mp hswap), Nat.max_eq_right (not_lt.mp hswap)]
    exact h

theorem isAssignment_of_orient (h : IsAssignment (min numRows numCols) (max numRows numCols)
    (pairs.map (orientPair numRows numCols))) : IsAssignment numRows numCols pairs := by
  by_cases hswap : numCols < numRows
  · have hmap : pairs.map (orientPair numRows numCols) = pairs.map Prod.swap :=
      List.map_congr_left fun _ _ => if_pos hswap
    rw [hmap, Nat.min_eq_right hswap.le, Nat.max_eq_left hswap.le] at h
    have htwice := h.swap
    rwa [List.map_map, Prod.swap_swap_eq, List.map_id] at htwice
  · have hmap : pairs.map (orientPair numRows numCols) = pairs.map id :=
      List.map_congr_left fun _ _ => if_neg hswap
    rwa [hmap, List.map_id, Nat.min_eq_left (not_lt.mp hswap),
      Nat.max_eq_right (not_lt.mp hswap)] at h

theorem allows_orient (h : ∀ pair ∈ pairs, pair.1 < numRows) :
    Allows (fun row column => orientedEntry numRows numCols cost maximize row column ≠ ⊤)
        (pairs.map (orientPair numRows numCols)) ↔ FiniteCosts numCols cost pairs := by
  rw [Allows, List.forall_mem_map, FiniteCosts, Allows]
  refine forall₂_congr fun pair hpair => ?_
  rw [orientedEntry, orientedCost_orientPair (h pair hpair), CostValue.extended_ne_top]
  split
  next => rw [CostValue.isFinite_negate]
  next => rfl

theorem total_orient (numCols : Nat) (cost : Nat → CostValue) (maximize : Bool)
    (h : ∀ pair ∈ pairs, pair.1 < numRows) :
    total (fun row column => (orientedEntry numRows numCols cost maximize row column).untopD 0)
        (pairs.map (orientPair numRows numCols)) =
      if maximize then -totalCost numCols cost pairs else totalCost numCols cost pairs := by
  have hmap : (pairs.map (orientPair numRows numCols)).map (fun pair =>
      (orientedEntry numRows numCols cost maximize pair.1 pair.2).untopD 0) =
      pairs.map fun pair => if maximize then -(cost (pair.1 * numCols + pair.2)).amount
        else (cost (pair.1 * numCols + pair.2)).amount := by
    rw [List.map_map]
    refine List.map_congr_left fun pair hpair => ?_
    change (orientedEntry numRows numCols cost maximize _ _).untopD 0 = _
    rw [orientedEntry, orientedCost_orientPair (h pair hpair), CostValue.untopD_extended]
    split
    next => rw [CostValue.amount_negate]
    next => rfl
  rw [total, hmap]
  cases maximize
  · rfl
  · rw [if_pos rfl, totalCost, total, List.sum_neg, List.map_map]
    rfl

/-! The result. -/

/-- The pairs of the optimal rows, the right way round, are an assignment of the best total. -/
theorem optimal_sound {solved : LsapWorkspace}
    (h : solved.Optimal (orientedEntry numRows numCols cost maximize) (max numRows numCols)
      (min numRows numCols))
    (hperm : (pairs.map (orientPair numRows numCols)).Perm (solved.pairs (min numRows numCols))) :
    IsAssignment numRows numCols pairs ∧ FiniteCosts numCols cost pairs ∧
      ∀ other, IsAssignment numRows numCols other → FiniteCosts numCols cost other →
        if maximize then totalCost numCols cost other ≤ totalCost numCols cost pairs
        else totalCost numCols cost pairs ≤ totalCost numCols cost other := by
  have hle : min numRows numCols ≤ max numRows numCols := min_le_max
  have hassigned := isAssignment_of_orient ((h.isAssignment hle).of_perm hperm.symm)
  refine ⟨hassigned, (allows_orient hassigned.rowsIn).mp fun pair hpair =>
    h.allows pair (hperm.mem_iff.mp hpair), fun other hother hfinite => ?_⟩
  have hbest := h.total_le hle (isAssignment_orient hother) ((allows_orient hother.rowsIn).mpr hfinite)
  have htotal : total (fun row column =>
        (orientedEntry numRows numCols cost maximize row column).untopD 0)
        (pairs.map (orientPair numRows numCols)) =
      total (fun row column => (orientedEntry numRows numCols cost maximize row column).untopD 0)
        (solved.pairs (min numRows numCols)) := (hperm.map _).sum_eq
  rw [total_orient numCols cost maximize hassigned.rowsIn] at htotal
  rw [← htotal, total_orient numCols cost maximize hother.rowsIn] at hbest
  split at hbest
  next hmax =>
    rw [if_pos hmax]
    exact neg_le_neg_iff.mp hbest
  next hmin =>
    rw [if_neg hmin]
    exact hbest

theorem argsort_perm (values : Nat → Nat) (count : Nat) :
    (argsort values count).Perm (List.range count) :=
  List.mergeSort_perm _ _

theorem argsort_pairwise (values : Nat → Nat) (count : Nat) :
    ((argsort values count).map values).Pairwise (· ≤ ·) := by
  rw [List.pairwise_map]
  refine (List.pairwise_mergeSort ?_ ?_ (List.range count)).imp fun h => of_decide_eq_true h
  · intro first second third hfirst hsecond
    exact decide_eq_true ((of_decide_eq_true hfirst).trans (of_decide_eq_true hsecond))
  · intro first second
    simpa using le_total (values first) (values second)

theorem orientedCost_valid (hvalid : ∀ index < numRows * numCols, cost index ≠ .nan ∧
    cost index ≠ if maximize then .infinite else .negativeInfinite) :
    ¬ ((List.range (min numRows numCols * max numRows numCols)).any fun index =>
      (orientedCost numRows numCols cost maximize index).invalid) := by
  have hentry : ∀ index < numRows * numCols, ∀ value,
      value = (if maximize then (cost index).negate else cost index) → value.invalid = false := by
    intro index hindex value hvalue
    obtain ⟨hnan, hinfinite⟩ := hvalid index hindex
    subst hvalue
    cases maximize <;> cases hcost : cost index <;> simp_all [CostValue.invalid, CostValue.negate]
  rw [List.any_eq_true]
  rintro ⟨index, hindex, hinvalid⟩
  rw [List.mem_range, min_mul_max] at hindex
  have hplace : (if numCols < numRows then index % numRows * numCols + index / numRows else index) <
      numRows * numCols := by
    split
    next hswap =>
      have hmod := Nat.mod_lt index (show 0 < numRows by omega)
      have hdiv : index / numRows < numCols := Nat.div_lt_of_lt_mul hindex
      calc _ < index % numRows * numCols + numCols := by omega
        _ = (index % numRows + 1) * numCols := by rw [Nat.add_mul, Nat.one_mul]
        _ ≤ numRows * numCols := Nat.mul_le_mul_right _ hmod
    next => exact hindex
  rw [hentry _ hplace] at hinvalid
  · exact nomatch hinvalid
  · rw [orientedCost]
    cases maximize <;> by_cases hswap : numCols < numRows <;> simp [hswap]

theorem optimal_start (entry : Nat → Nat → WithTop ℤ) (numCols : Nat)
    {workspace : LsapWorkspace} (hcolumns : workspace.columnDuals = fun _ => 0)
    (hfree : workspace.rowForColumn = fun _ => none) : workspace.Optimal entry numCols 0 where
  rowMatched := fun _ hrow => absurd hrow (Nat.not_lt_zero _)
  columnMatched := fun column row hrow => by
    rw [hfree] at hrow
    exact nomatch hrow
  feasible := fun _ hrow => absurd hrow (Nat.not_lt_zero _)
  tight := fun column row hrow => by
    rw [hfree] at hrow
    exact nomatch hrow
  nonpos := fun column => by rw [hcolumns]
  free := fun column _ => by rw [hcolumns]

/-- What the rows start from. -/
def startWorkspace (numRows numCols : Nat) (cost : Nat → CostValue) (maximize : Bool)
    (workspace : LsapWorkspace) : LsapWorkspace :=
  { workspace with
    transposedCost :=
      if numCols < numRows ∨ maximize then orientedCost numRows numCols cost maximize
      else workspace.transposedCost
    rowDuals := fun _ => 0
    columnDuals := fun _ => 0
    path := fun _ => none
    columnForRow := fun _ => none
    rowForColumn := fun _ => none }

/-- The pairs that are returned. -/
def answerPairs (numRows numCols : Nat) (solved : LsapWorkspace) : List (Nat × Nat) :=
  let columnForRow := fun row => (solved.columnForRow row).getD 0
  if numCols < numRows then
    (argsort columnForRow (min numRows numCols)).map fun row => (columnForRow row, row)
  else (List.range (min numRows numCols)).map fun row => (row, columnForRow row)

theorem solve_eq (workspace : LsapWorkspace) (hzero : ¬ (numRows = 0 ∨ numCols = 0))
    (hvalid : ∀ index < numRows * numCols, cost index ≠ .nan ∧
      cost index ≠ if maximize then .infinite else .negativeInfinite) :
    solveRectangularLinearSumAssignment numRows numCols cost maximize workspace =
      (LsapWorkspace.solveRows (orientedEntry numRows numCols cost maximize) (min numRows numCols)
        (max numRows numCols) (List.range (min numRows numCols))
        (startWorkspace numRows numCols cost maximize workspace)).map fun outcome =>
          if outcome.1 ≠ .ok then (outcome.1, [])
          else (.ok, answerPairs numRows numCols outcome.2) := by
  rw [solveRectangularLinearSumAssignment, if_neg hzero]
  dsimp only
  rw [if_neg (orientedCost_valid hvalid)]
  change Option.bind (LsapWorkspace.solveRows (orientedEntry numRows numCols cost maximize) _ _ _
    (startWorkspace numRows numCols cost maximize workspace)) _ = _
  cases LsapWorkspace.solveRows (orientedEntry numRows numCols cost maximize) (min numRows numCols)
    (max numRows numCols) (List.range (min numRows numCols))
    (startWorkspace numRows numCols cost maximize workspace) with
  | none => rfl
  | some outcome =>
      simp only [Option.bind_some, Option.map_some, answerPairs]
      split
      · rfl
      · split <;> rfl

theorem answerPairs_perm (solved : LsapWorkspace) :
    ((answerPairs numRows numCols solved).map (orientPair numRows numCols)).Perm
      (solved.pairs (min numRows numCols)) := by
  rw [answerPairs]
  split
  next hswap =>
    rw [List.map_map]
    refine .trans (.of_eq (List.map_congr_left fun row _ => ?_)) ((argsort_perm _ _).map _)
    rw [Function.comp_apply, orientPair, if_pos hswap]
    rfl
  next hkeep =>
    rw [List.map_map]
    refine .of_eq (List.map_congr_left fun row _ => ?_)
    rw [Function.comp_apply, orientPair, if_neg hkeep]

theorem answerPairs_increasing (solved : LsapWorkspace)
    (hnodup : ((answerPairs numRows numCols solved).map Prod.fst).Nodup) :
    ((answerPairs numRows numCols solved).map Prod.fst).Pairwise (· < ·) := by
  have hsorted : ((answerPairs numRows numCols solved).map Prod.fst).Pairwise (· ≤ ·) := by
    rw [answerPairs]
    split
    next =>
      rw [List.map_map]
      exact argsort_pairwise _ _
    next =>
      rw [List.map_map]
      exact (List.map_id _).symm ▸ List.pairwise_lt_range.imp le_of_lt
  exact (hsorted.and hnodup).imp fun hboth => lt_of_le_of_ne hboth.1 hboth.2

theorem solveRectangularLinearSumAssignment_sound (numRows numCols : Nat)
    (cost : Nat → CostValue) (maximize : Bool) (workspace : LsapWorkspace)
    (hvalid : ∀ index < numRows * numCols, cost index ≠ .nan ∧
      cost index ≠ if maximize then .infinite else .negativeInfinite) :
    ∃ status pairs,
      solveRectangularLinearSumAssignment numRows numCols cost maximize workspace =
        some (status, pairs) ∧
      (status = .ok ↔
        ∃ other, IsAssignment numRows numCols other ∧ FiniteCosts numCols cost other) ∧
      (status = .ok → BestAssignment numRows numCols cost maximize pairs) := by
  by_cases hzero : numRows = 0 ∨ numCols = 0
  · have hempty : IsAssignment numRows numCols [] := by
      refine ⟨nofun, nofun, List.nodup_nil, List.nodup_nil, ?_⟩
      rw [List.length_nil]
      omega
    rw [solveRectangularLinearSumAssignment, if_pos hzero]
    refine ⟨.ok, [], rfl, ⟨fun _ => ⟨[], hempty, nofun⟩, fun _ => rfl⟩,
      fun _ => ⟨hempty, nofun, List.Pairwise.nil, fun other hother _ => ?_⟩⟩
    have hnil : other = [] := List.length_eq_zero_iff.mp (hother.full.trans (by omega))
    subst hnil
    split <;> exact le_refl _
  · rw [solve_eq workspace hzero hvalid]
    obtain ⟨outcome, houtcome, hspec⟩ := LsapWorkspace.solveRows_spec min_le_max
      (min numRows numCols)
      (optimal_start (orientedEntry numRows numCols cost maximize) (max numRows numCols) rfl rfl :
        (startWorkspace numRows numCols cost maximize workspace).Optimal _ _ _) (Nat.zero_add _)
    rw [← List.range_eq_range'] at houtcome
    rw [houtcome]
    cases hspec with
    | infeasible left hblocked =>
        refine ⟨.infeasible, [], rfl, ⟨nofun, ?_⟩, nofun⟩
        rintro ⟨other, hother, hfinite⟩
        exact absurd ((allows_orient hother.rowsIn).mpr hfinite)
          (hblocked _ (isAssignment_orient hother))
    | ok solved hoptimal =>
        obtain ⟨hassigned, hfinite, hbest⟩ := optimal_sound hoptimal (answerPairs_perm solved)
        exact ⟨.ok, answerPairs numRows numCols solved, rfl,
          ⟨fun _ => ⟨_, hassigned, hfinite⟩, fun _ => rfl⟩,
          fun _ => ⟨hassigned, hfinite, answerPairs_increasing solved hassigned.rowsOnce, hbest⟩⟩

theorem solveRectangularLinearSumAssignment_square :
    ∃ status pairs,
      solveRectangularLinearSumAssignment 2 2 (fun index => [.finite 4, .finite 1, .finite 2,
        .infinite].getD index .nan) false default = some (status, pairs) ∧
      (status = .ok ↔ ∃ other, IsAssignment 2 2 other ∧
        FiniteCosts 2 (fun index => [.finite 4, .finite 1, .finite 2, .infinite].getD index .nan)
          other) ∧
      (status = .ok → BestAssignment 2 2 (fun index => [.finite 4, .finite 1, .finite 2,
        .infinite].getD index .nan) false pairs) :=
  solveRectangularLinearSumAssignment_sound 2 2 _ false default (by decide)

/-- The column of least cost goes to the row that has no other. -/
example : solveRectangularLinearSumAssignment 2 2 (fun index => [.finite 4, .finite 1, .finite 2,
    .infinite].getD index .nan) false default = some (.ok, [(0, 1), (1, 0)]) := by
  decide

end Mmltk.Assignment
