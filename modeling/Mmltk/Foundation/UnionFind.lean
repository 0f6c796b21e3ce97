import Mathlib.Data.Finset.Card

namespace Mmltk.Foundation

/-! Classes by parent pointers: a search halves its path, a union links one root to another. -/

namespace UnionFind

variable {parent : Nat → Nat} {bound size fuel index root other : Nat}

/-- Every element is at its root after `bound` steps. -/
def Forest (parent : Nat → Nat) (bound : Nat) : Prop :=
  ∀ index, parent (parent^[bound] index) = parent^[bound] index

def rootOf (parent : Nat → Nat) (bound index : Nat) : Nat := parent^[bound] index

/-- The search for a root: every other element on the way comes to point past its parent. -/
def findRoot (parent : Nat → Nat) : Nat → Nat → (Nat → Nat) × Nat
  | 0, index => (parent, index)
  | fuel + 1, index =>
      if parent index = index then (parent, index)
      else
        let halved := Function.update parent index (parent (parent index))
        findRoot halved fuel (halved index)

/-- `parent[root(index)] = root(other)`, the right side first. -/
def join (fuel : Nat) (parent : Nat → Nat) (index other : Nat) : Nat → Nat :=
  let (parent, target) := findRoot parent fuel other
  let (parent, source) := findRoot parent fuel index
  Function.update parent source target

theorem iterate_of_root (hroot : parent root = root) (steps : Nat) : parent^[steps] root = root := by
  induction steps with
  | zero => rfl
  | succ steps ih => rw [Function.iterate_succ_apply, hroot, ih]

theorem Forest.iterate (h : Forest parent bound) {steps : Nat} (hsteps : bound ≤ steps) :
    parent^[steps] index = rootOf parent bound index := by
  obtain ⟨more, rfl⟩ := Nat.exists_eq_add_of_le hsteps
  rw [Nat.add_comm, Function.iterate_add_apply]
  exact iterate_of_root (h index) more

theorem Forest.weaken (h : Forest parent bound) (hle : bound ≤ fuel) : Forest parent fuel := by
  intro index
  rw [h.iterate hle]
  exact h index

theorem Forest.rootOf_root (h : Forest parent bound) :
    parent (rootOf parent bound index) = rootOf parent bound index := h index

@[simp] theorem rootOf_of_root (hroot : parent root = root) : rootOf parent bound root = root :=
  iterate_of_root hroot bound

theorem Forest.rootOf_parent (h : Forest parent bound) :
    rootOf parent bound (parent index) = rootOf parent bound index := by
  rw [rootOf, ← Function.iterate_succ_apply]
  exact h.iterate (Nat.le_succ bound)

/-- Two elements that are each other's parents are roots. -/
theorem Forest.no_cycle (h : Forest parent bound) (hcycle : parent (parent index) = index) :
    parent index = index := by
  have heven : ∀ steps, parent^[2 * steps] index = index := by
    intro steps
    induction steps with
    | zero => rfl
    | succ steps ih =>
        rw [Nat.mul_succ, Function.iterate_add_apply]
        exact (congrArg _ hcycle).trans ih
  have hroot : parent (rootOf parent bound index) = rootOf parent bound index := h.rootOf_root
  rw [← h.iterate (Nat.le_mul_of_pos_left bound Nat.two_pos), heven bound] at hroot
  exact hroot

section Halving

variable {halved : Nat → Nat}

/-- Each step of the halved pointers is one or two of the others. -/
theorem halved_steps (hhalved : ∀ index, halved index = parent index ∨
      halved index = parent (parent index)) (steps index : Nat) :
    ∃ more, steps ≤ more ∧ halved^[steps] index = parent^[more] index := by
  induction steps generalizing index with
  | zero => exact ⟨0, Nat.le_refl 0, rfl⟩
  | succ steps ih =>
      rw [Function.iterate_succ_apply]
      cases hhalved index with
      | inl hone =>
          obtain ⟨more, hle, heq⟩ := ih (parent index)
          exact ⟨more + 1, Nat.succ_le_succ hle, by rw [hone, heq, Function.iterate_succ_apply]⟩
      | inr htwo =>
          obtain ⟨more, hle, heq⟩ := ih (parent (parent index))
          refine ⟨more + 2, by omega, ?_⟩
          rw [htwo, heq, Function.iterate_succ_apply, Function.iterate_succ_apply]

end Halving

theorem update_halves (index position : Nat) :
    Function.update parent index (parent (parent index)) position = parent position ∨
      Function.update parent index (parent (parent index)) position =
        parent (parent position) := by
  rcases eq_or_ne position index with rfl | hne
  · exact .inr (Function.update_self ..)
  · exact .inl (Function.update_of_ne hne ..)

/-- What the halved pointers keep: the roots, and what is a root. -/
structure Halves (parent halved : Nat → Nat) (bound : Nat) : Prop where
  forest : Forest halved bound
  rootOf : ∀ index, rootOf halved bound index = UnionFind.rootOf parent bound index
  roots : ∀ index, halved index = index ↔ parent index = index

theorem Halves.rfl (h : Forest parent bound) : Halves parent parent bound :=
  ⟨h, fun _ => Eq.refl _, fun _ => Iff.rfl⟩

theorem Halves.trans {halved twice : Nat → Nat} (h : Halves parent halved bound)
    (htwice : Halves halved twice bound) : Halves parent twice bound :=
  ⟨htwice.forest, fun index => (htwice.rootOf index).trans (h.rootOf index),
    fun index => (htwice.roots index).trans (h.roots index)⟩

theorem Forest.halves (h : Forest parent bound) (index : Nat) :
    Halves parent (Function.update parent index (parent (parent index))) bound := by
  have hroots : ∀ position, rootOf (Function.update parent index (parent (parent index))) bound
      position = rootOf parent bound position := by
    intro position
    obtain ⟨more, hle, heq⟩ := halved_steps (update_halves index) bound position
    exact heq.trans (h.iterate hle)
  have hfixed : ∀ position, Function.update parent index (parent (parent index)) position =
      position ↔ parent position = position := by
    intro position
    rcases eq_or_ne position index with hsame | hne
    · subst hsame
      rw [Function.update_self]
      exact ⟨h.no_cycle, fun hroot => by rw [hroot, hroot]⟩
    · rw [Function.update_of_ne hne]
  exact ⟨fun position => (congrArg _ (hroots position)).trans
    (((hfixed _).mpr h.rootOf_root).trans (hroots position).symm), hroots, hfixed⟩

/-- With fuel for the whole path, the search ends at the root. -/
theorem findRoot_spec (h : Forest parent bound) {steps : Nat}
    (hsteps : parent (parent^[steps] index) = parent^[steps] index) (hfuel : steps ≤ fuel) :
    (findRoot parent fuel index).2 = rootOf parent bound index ∧
      Halves parent (findRoot parent fuel index).1 bound := by
  induction fuel generalizing parent index steps with
  | zero =>
      obtain rfl := Nat.le_zero.mp hfuel
      exact ⟨(rootOf_of_root hsteps).symm, Halves.rfl h⟩
  | succ fuel ih =>
      rw [findRoot]
      split
      next hroot => exact ⟨(rootOf_of_root hroot).symm, Halves.rfl h⟩
      next hroot =>
        have hhalves := h.halves index
        cases steps with
        | zero => exact absurd hsteps hroot
        | succ steps =>
            have hshort : Function.update parent index (parent (parent index))
                ((Function.update parent index (parent (parent index)))^[steps]
                  (Function.update parent index (parent (parent index)) index)) =
                (Function.update parent index (parent (parent index)))^[steps]
                  (Function.update parent index (parent (parent index)) index) := by
              rw [← Function.iterate_succ_apply]
              obtain ⟨more, hle, heq⟩ := halved_steps (update_halves index) (steps + 1) index
              rw [heq, hhalves.roots]
              obtain ⟨extra, rfl⟩ := Nat.exists_eq_add_of_le hle
              rw [Nat.add_comm, Function.iterate_add_apply, iterate_of_root hsteps]
              exact hsteps
            obtain ⟨hfound, hkept⟩ := ih hhalves.forest hshort (Nat.le_of_succ_le_succ hfuel)
            refine ⟨?_, hhalves.trans hkept⟩
            rw [hfound, hhalves.forest.rootOf_parent, hhalves.rootOf]

/-- The roots of `indices`, one after the other. -/
def findRoots (parent : Nat → Nat) (fuel : Nat) : List Nat → (Nat → Nat) × List Nat
  | [] => (parent, [])
  | index :: rest =>
      let (parent, root) := findRoot parent fuel index
      let (parent, roots) := findRoots parent fuel rest
      (parent, root :: roots)

def roots (parent : Nat → Nat) (size : Nat) : Finset Nat :=
  (Finset.range size).filter fun index => parent index = index

/-- A forest over the first `size` elements, its paths no longer than the links that were made. -/
structure Grouped (parent : Nat → Nat) (size : Nat) : Prop where
  closed : ∀ index < size, parent index < size
  bounded : ∃ bound, Forest parent bound ∧ bound + (roots parent size).card ≤ size

theorem Grouped.forest (h : Grouped parent size) : Forest parent size := by
  obtain ⟨bound, hforest, hroom⟩ := h.bounded
  exact hforest.weaken (Nat.le_of_add_right_le hroom)

theorem Grouped.iterate_lt (h : Grouped parent size) (hindex : index < size) (steps : Nat) :
    parent^[steps] index < size := by
  induction steps generalizing index with
  | zero => exact hindex
  | succ steps ih => exact ih (h.closed index hindex)

theorem Grouped.rootOf_lt (h : Grouped parent size) (hindex : index < size) :
    rootOf parent size index < size := h.iterate_lt hindex size

theorem Grouped.halves {halved : Nat → Nat} (h : Grouped parent size)
    (hhalves : ∀ bound, Forest parent bound → Halves parent halved bound)
    (hclosed : ∀ index < size, halved index < size) : Grouped halved size where
  closed := hclosed
  bounded := by
    obtain ⟨bound, hforest, hroom⟩ := h.bounded
    have hkept := hhalves bound hforest
    refine ⟨bound, hkept.forest, ?_⟩
    have hroots : roots halved size = roots parent size :=
      Finset.filter_congr fun index _ => hkept.roots index
    rwa [hroots]

theorem findRoot_closed (h : ∀ index < size, parent index < size) (hindex : index < size) :
    ∀ position < size, (findRoot parent fuel index).1 position < size := by
  induction fuel generalizing parent index with
  | zero => exact h
  | succ fuel ih =>
      rw [findRoot]
      split
      · exact h
      · have hhalved : ∀ position < size,
            Function.update parent index (parent (parent index)) position < size := by
          intro position hposition
          cases update_halves index position with
          | inl hone => exact hone ▸ h position hposition
          | inr htwo => exact htwo ▸ h _ (h position hposition)
        exact ih hhalved (hhalved index hindex)

theorem findRoot_halves (hforest : Forest parent bound) (hfuel : Forest parent fuel) :
    Halves parent (findRoot parent fuel index).1 bound := by
  have hends : ∃ steps ≤ fuel, parent (parent^[steps] index) = parent^[steps] index :=
    ⟨fuel, Nat.le_refl fuel, hfuel index⟩
  obtain ⟨steps, hle, hroot⟩ := hends
  exact (findRoot_spec hforest hroot hle).2

theorem Grouped.findRoot (h : Grouped parent size) (hindex : index < size) :
    (findRoot parent size index).2 = rootOf parent size index ∧
      Grouped (UnionFind.findRoot parent size index).1 size ∧
      Halves parent (UnionFind.findRoot parent size index).1 size := by
  obtain ⟨hfound, hhalves⟩ := findRoot_spec h.forest (h.forest index) (Nat.le_refl size)
  exact ⟨hfound, h.halves (fun bound hforest => findRoot_halves hforest h.forest)
    (findRoot_closed h.closed hindex), hhalves⟩

theorem Grouped.findRoots (h : Grouped parent size) (indices : List Nat)
    (hindices : ∀ index ∈ indices, index < size) :
    (findRoots parent size indices).2 = indices.map (rootOf parent size) ∧
      Grouped (UnionFind.findRoots parent size indices).1 size ∧
      Halves parent (UnionFind.findRoots parent size indices).1 size := by
  induction indices generalizing parent with
  | nil => exact ⟨rfl, h, Halves.rfl h.forest⟩
  | cons index rest ih =>
      obtain ⟨hfound, hgrouped, hhalves⟩ := h.findRoot (hindices index List.mem_cons_self)
      obtain ⟨hrest, hgroupedRest, hhalvesRest⟩ :=
        ih hgrouped fun other hother => hindices other (List.mem_cons_of_mem _ hother)
      refine ⟨?_, hgroupedRest, hhalves.trans hhalvesRest⟩
      simp only [UnionFind.findRoots, List.map_cons, hfound, hrest]
      exact congrArg _ (List.map_congr_left fun other _ => hhalves.rootOf other)

/-- One root points to another: its class joins the other's. -/
theorem Forest.link (h : Forest parent bound) (hroot : parent root = root)
    (hother : parent other = other) (hne : root ≠ other) :
    Forest (Function.update parent root other) (bound + 1) ∧
      ∀ index, rootOf (Function.update parent root other) (bound + 1) index =
        if rootOf parent bound index = root then other else rootOf parent bound index := by
  have hfixed : Function.update parent root other other = other := by
    rw [Function.update_of_ne hne.symm, hother]
  have hreaches : ∀ steps index, parent (parent^[steps] index) = parent^[steps] index →
      (Function.update parent root other)^[steps + 1] index =
        if parent^[steps] index = root then other else parent^[steps] index := by
    intro steps
    induction steps with
    | zero =>
        intro index hends
        rcases eq_or_ne index root with hsame | hdifferent
        · subst hsame
          simp
        · rw [Function.iterate_zero_apply] at hends ⊢
          rw [Nat.zero_add, Function.iterate_one, Function.update_of_ne hdifferent, hends,
            if_neg hdifferent]
    | succ steps ih =>
        intro index hends
        rw [Function.iterate_succ_apply]
        rcases eq_or_ne index root with hsame | hdifferent
        · subst hsame
          rw [Function.update_self, iterate_of_root hfixed, iterate_of_root hroot, if_pos rfl]
        · rw [Function.update_of_ne hdifferent, Function.iterate_succ_apply]
          exact ih (parent index) hends
  have hroots : ∀ index, rootOf (Function.update parent root other) (bound + 1) index =
      if rootOf parent bound index = root then other else rootOf parent bound index :=
    fun index => hreaches bound index (h index)
  refine ⟨fun index => ?_, hroots⟩
  have hreached := hroots index
  rw [rootOf] at hreached
  rw [hreached]
  split
  · exact hfixed
  next hdifferent =>
    rw [Function.update_of_ne hdifferent]
    exact h index

theorem Grouped.join (h : Grouped parent size) (hindex : index < size) (hother : other < size) :
    Grouped (join size parent index other) size ∧
      ∀ position, rootOf (UnionFind.join size parent index other) size position =
        if rootOf parent size position = rootOf parent size index then rootOf parent size other
        else rootOf parent size position := by
  obtain ⟨htarget, hgrouped, hhalves⟩ := h.findRoot hother
  obtain ⟨hsource, hgroupedTwice, hhalvesTwice⟩ := hgrouped.findRoot hindex
  have hboth := hhalves.trans hhalvesTwice
  rw [hhalves.rootOf] at hsource
  have hjoin : UnionFind.join size parent index other =
      Function.update (UnionFind.findRoot (UnionFind.findRoot parent size other).1 size index).1
        (rootOf parent size index) (rootOf parent size other) := by
    rw [UnionFind.join, ← htarget, ← hsource]
  rw [hjoin]
  generalize (UnionFind.findRoot (UnionFind.findRoot parent size other).1 size index).1 = halved
    at hboth hgroupedTwice
  have hroot : halved (rootOf parent size index) = rootOf parent size index :=
    (hboth.roots _).mpr h.forest.rootOf_root
  have hrootOther : halved (rootOf parent size other) = rootOf parent size other :=
    (hboth.roots _).mpr h.forest.rootOf_root
  have hclosed : ∀ position < size,
      Function.update halved (rootOf parent size index) (rootOf parent size other) position <
        size := by
    intro position hposition
    rcases eq_or_ne position (rootOf parent size index) with hsame | hdifferent
    · rw [hsame, Function.update_self]
      exact h.rootOf_lt hother
    · rw [Function.update_of_ne hdifferent]
      exact hgroupedTwice.closed position hposition
  rcases eq_or_ne (rootOf parent size index) (rootOf parent size other) with hsame | hdifferent
  · have hunchanged : Function.update halved (rootOf parent size index)
        (rootOf parent size other) = halved := by
      rw [← hsame]
      exact (Function.update_eq_self_iff ..).mpr hroot.symm
    rw [hunchanged]
    refine ⟨hgroupedTwice, fun position => ?_⟩
    rw [hboth.rootOf]
    split
    next hequal => rw [hequal, hsame]
    · rfl
  · obtain ⟨bound, hforest, hroom⟩ := hgroupedTwice.bounded
    obtain ⟨hlinked, hroots⟩ := hforest.link hroot hrootOther hdifferent
    have hrooms : roots (Function.update halved (rootOf parent size index)
        (rootOf parent size other)) size = (roots halved size).erase (rootOf parent size index) := by
      ext position
      simp only [roots, Finset.mem_filter, Finset.mem_range, Finset.mem_erase]
      rcases eq_or_ne position (rootOf parent size index) with hposition | hposition
      · rw [hposition, Function.update_self]
        simp [hdifferent.symm]
      · rw [Function.update_of_ne hposition]
        simp [hposition]
    have hmem : rootOf parent size index ∈ roots halved size :=
      Finset.mem_filter.mpr ⟨Finset.mem_range.mpr (h.rootOf_lt hindex), hroot⟩
    have hpositive := Finset.card_pos.mpr ⟨_, hmem⟩
    have hbound : bound + 1 + (roots (Function.update halved (rootOf parent size index)
        (rootOf parent size other)) size).card ≤ size := by
      rw [hrooms, Finset.card_erase_of_mem hmem]
      omega
    refine ⟨⟨hclosed, bound + 1, hlinked, hbound⟩, fun position => ?_⟩
    have hle : bound + 1 ≤ size := Nat.le_of_add_right_le hbound
    have hposition : (Function.update halved (rootOf parent size index)
        (rootOf parent size other))^[size] position = _ := hlinked.iterate hle
    have hbefore : halved^[size] position = _ := hforest.iterate (Nat.le_of_succ_le hle)
    have hkept := hboth.rootOf position
    rw [rootOf] at hkept ⊢
    rw [hposition, hroots, ← hbefore, hkept]

/-- The classes before, and the pairs that were linked. -/
def Linked (parent : Nat → Nat) (size : Nat) (links : List (Nat × Nat)) (index other : Nat) : Prop :=
  rootOf parent size index = rootOf parent size other ∨ (index, other) ∈ links

end UnionFind

end Mmltk.Foundation
