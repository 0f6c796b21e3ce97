import Mathlib.Data.String.Basic
import Mathlib.Data.Sym.Sym2
import Mmltk.Catalog.KeypointSchema
import Mmltk.Foundation.IndexBijections
import Mmltk.Foundation.Outcome

namespace Mmltk.Catalog

open Mmltk.Foundation

/-! Joints of one class under two schemas: reordered, matched by name, or shared in part. -/

variable {F : Type} [ExactFloating F]

namespace ClassKeypointSchema

def count (schema : ClassKeypointSchema F) : Nat := schema.names.length

def nameAt (schema : ClassKeypointSchema F) (index : Nat) : String := schema.names.getD index ""

def flipAt (schema : ClassKeypointSchema F) (index : Nat) : Nat :=
  schema.horizontalFlip.getD index 0

def sigmaAt (schema : ClassKeypointSchema F) (index : Nat) : F := schema.oksSigmas.getD index 0

end ClassKeypointSchema

/-! `joint_lookup` finds a name where it is; a validated schema has each name once, and
`checked_joint_index` holds of its indices. -/

def jointLookup (schema : ClassKeypointSchema F) (name : String) : Option Nat :=
  schema.names.idxOf? name

/-- The two names in their order. -/
def orderedNames (first second : String) : String × String :=
  if second < first then (second, first) else (first, second)

/-- The edges between joints that the other schema has too, as sets of names. -/
def sharedEdges (schema other : ClassKeypointSchema F) : Finset (String × String) :=
  (schema.skeleton.filterMap fun edge =>
    let first := schema.nameAt edge.first
    let second := schema.nameAt edge.second
    if (jointLookup other first).isNone || (jointLookup other second).isNone then none
    else some (orderedNames first second)).toFinset

/-- Another sigma, or another mirror image. -/
def disagrees (source destination : ClassKeypointSchema F) (index target : Nat) : Bool :=
  source.sigmaAt index != destination.sigmaAt target ||
    source.nameAt (source.flipAt index) != destination.nameAt (destination.flipAt target)

/-- The loop over the names of the destination, from `target` on. -/
def correspondFrom (source destination : ClassKeypointSchema F) (exact : Bool) (target : Nat) :
    List String → Except String (List (Nat × Nat))
  | [] => .ok []
  | name :: rest =>
      match jointLookup source name with
      | none =>
          if exact then .error "keypoint schemas have different joint sets"
          else correspondFrom source destination exact (target + 1) rest
      | some index =>
          if disagrees source destination index target then
            .error ("keypoint schemas disagree on joint meaning: " ++ name)
          else
            match correspondFrom source destination exact (target + 1) rest with
            | .error failure => .error failure
            | .ok pairs => .ok ((index, target) :: pairs)

def jointCorrespondence (source destination : ClassKeypointSchema F) (exact : Bool) :
    Except String (List (Nat × Nat)) := do
  validateKeypointSchema source
  validateKeypointSchema destination
  if exact = true ∧ source.names.length ≠ destination.names.length then
    throw "keypoint schemas have different joint sets"
  let pairs ← correspondFrom source destination exact 0 destination.names
  if sharedEdges source destination ≠ sharedEdges destination source then
    throw "keypoint schemas disagree on skeleton meaning for shared joints"
  return pairs

/-- `SkeletonEdge`'s order. -/
def SkeletonEdge.le (left right : SkeletonEdge) : Prop :=
  left.first < right.first ∨ left.first = right.first ∧ left.second ≤ right.second

instance : DecidableRel SkeletonEdge.le := fun _ _ => inferInstanceAs (Decidable (_ ∨ _))

def moveEdge (permutation : List Nat) (edge : SkeletonEdge) : SkeletonEdge :=
  orderedEdge ⟨targetAt permutation edge.first, targetAt permutation edge.second⟩

/-- The joints at their targets; each one's mirror image is the target of its mirror image. -/
def permuted (source : ClassKeypointSchema F) (permutation : List Nat) : ClassKeypointSchema F where
  names := placeAll "" permutation source.names
  skeleton := (source.skeleton.map (moveEdge permutation)).insertionSort SkeletonEdge.le
  horizontalFlip :=
    placeAll 0 permutation (source.horizontalFlip.map (targetAt permutation))
  oksSigmas := placeAll 0 permutation source.oksSigmas

/-- The loop that checks the targets; `seen` are those before. -/
def checkTargets (count : Nat) (seen : List Nat) : List Nat → Except String Unit
  | [] => .ok ()
  | target :: rest =>
      if count ≤ target ∨ target ∈ seen then .error "keypoint permutation is not bijective"
      else checkTargets count (target :: seen) rest

def permuteKeypointSchema (source : ClassKeypointSchema F) (permutation : List Nat) :
    Except String (ClassKeypointSchema F) := do
  validateKeypointSchema source
  if permutation.length ≠ source.names.length then
    throw "keypoint permutation count disagrees with schema"
  checkTargets source.names.length [] permutation
  return permuted source permutation

def keypointPermutation (source destination : ClassKeypointSchema F) :
    Except String (List Nat) := do
  let pairs ← jointCorrespondence source destination true
  return assignAll (List.replicate source.names.length 0) pairs

def sharedKeypointCorrespondence (source destination : ClassKeypointSchema F) :
    Except String (List (Nat × Nat)) :=
  jointCorrespondence source destination false

/-! ### Validated schemas -/

structure Valid (schema : ClassKeypointSchema F) : Prop where
  count_le : schema.names.length ≤ keypointsPerClassCapacity
  flips_length : schema.horizontalFlip.length = schema.names.length
  sigmas_length : schema.oksSigmas.length = schema.names.length
  edges_le : schema.skeleton.length ≤ skeletonEdgeCapacity
  bounded : ∀ name ∈ schema.names, boundedName keypointNameCapacity name = true
  nodup : schema.names.Nodup
  flip_lt : ∀ index < schema.names.length, schema.flipAt index < schema.names.length
  flip_flip : ∀ index < schema.names.length, schema.flipAt (schema.flipAt index) = index
  sigma : ∀ index < schema.names.length,
    Floating.isFinite (schema.sigmaAt index) = true ∧ 0 < schema.sigmaAt index
  edge_lt : ∀ edge ∈ schema.skeleton, edge.first < schema.names.length ∧
    edge.second < schema.names.length ∧ edge.first ≠ edge.second
  edges_nodup : (schema.skeleton.map orderedEdge).Nodup

section Validation

variable {schema : ClassKeypointSchema F} {α ε : Type}

theorem forM_eq_ok {list : List α} {check : α → Except ε Unit} :
    list.forM check = .ok () ↔ ∀ item ∈ list, check item = .ok () := by
  induction list with
  | nil => exact iff_of_true rfl (List.forall_mem_nil _)
  | cons item rest ih =>
      rw [List.forall_mem_cons, ← ih]
      change (check item >>= fun _ => rest.forM check) = .ok () ↔ _
      rw [bind_eq_ok]
      constructor
      · rintro ⟨⟨⟩, hitem, hrest⟩
        exact ⟨hitem, hrest⟩
      · exact fun h => ⟨(), h⟩

theorem forall_mem_zipIdx {list : List α} {holds : α × Nat → Prop} :
    (∀ pair ∈ list.zipIdx, holds pair) ↔
      ∀ index (h : index < list.length), holds (list[index], index) := by
  constructor
  · intro h index hindex
    refine h _ (List.mk_mem_zipIdx_iff_getElem?.mpr (List.getElem?_eq_getElem hindex))
  · rintro h ⟨item, index⟩ hmem
    obtain ⟨hindex, rfl⟩ := List.getElem?_eq_some_iff.mp (List.mk_mem_zipIdx_iff_getElem?.mp hmem)
    exact h index hindex

theorem nodup_iff_take {list : List α} :
    list.Nodup ↔ ∀ index (h : index < list.length), list[index] ∉ list.take index := by
  constructor
  · intro hnodup index hindex hmem
    obtain ⟨other, hother, heq⟩ := List.getElem_of_mem hmem
    rw [List.length_take] at hother
    rw [List.getElem_take] at heq
    have hsame := (List.Nodup.getElem_inj_iff hnodup).mp heq
    omega
  · intro h
    refine List.pairwise_iff_getElem.mpr fun first second hfirst hsecond hless heq => ?_
    refine h second hsecond (heq ▸ ?_)
    exact List.mem_take_iff_getElem.mpr ⟨first, by omega, rfl⟩

theorem validateJoint_ok {index : Nat} {name : String} :
    validateJoint schema name index = .ok () ↔
      (boundedName keypointNameCapacity name = true ∧ name ∉ schema.names.take index) ∧
      (∃ flip < schema.names.length, schema.horizontalFlip[index]? = some flip ∧
        schema.horizontalFlip[flip]? = some index) ∧
      ∃ sigma, schema.oksSigmas[index]? = some sigma ∧ Floating.isFinite sigma = true ∧
        0 < sigma := by
  simp only [validateJoint, throw, throwThe, MonadExceptOf.throw, bind, Except.bind, pure,
    Except.pure, guard_eq_ok, Bool.or_eq_true, Bool.not_eq_true', not_or, Bool.not_eq_false,
    List.contains_iff_mem, Option.any_eq_true, Bool.and_eq_true, decide_eq_true_eq, and_true]
  refine and_congr_right fun _ => and_congr (exists_congr fun flip => ?_) Iff.rfl
  exact ⟨fun ⟨hflip, hless, hback⟩ => ⟨hless, hflip, hback⟩,
    fun ⟨hless, hflip, hback⟩ => ⟨hflip, hless, hback⟩⟩

omit [ExactFloating F] in
theorem validateEdge_ok {index : Nat} {edge : SkeletonEdge} :
    validateEdge schema edge index = .ok () ↔
      (edge.first < schema.names.length ∧ edge.second < schema.names.length ∧
        edge.first ≠ edge.second) ∧
      orderedEdge edge ∉ (schema.skeleton.map orderedEdge).take index := by
  simp only [validateEdge, throw, throwThe, MonadExceptOf.throw, pure, Except.pure, guard_eq_ok,
    not_or, Nat.not_le, and_true, List.map_take, and_assoc]

theorem getD_of_lt {list : List α} {index : Nat} {fill : α} (h : index < list.length) :
    list.getD index fill = list[index] := by
  rw [List.getD_eq_getElem?_getD, List.getElem?_eq_getElem h, Option.getD_some]

theorem valid_of_checks
    (hcounts : schema.names.length ≤ keypointsPerClassCapacity ∧
      schema.horizontalFlip.length = schema.names.length ∧
      schema.oksSigmas.length = schema.names.length ∧
      schema.skeleton.length ≤ skeletonEdgeCapacity)
    (hjoints : ∀ index (h : index < schema.names.length),
      validateJoint schema schema.names[index] index = .ok ())
    (hedges : ∀ index (h : index < schema.skeleton.length),
      validateEdge schema schema.skeleton[index] index = .ok ()) : Valid schema := by
  obtain ⟨hcount, hflips, hsigmas, hskeleton⟩ := hcounts
  have hflip : ∀ index < schema.names.length,
      schema.flipAt index < schema.names.length ∧ schema.flipAt (schema.flipAt index) = index := by
    intro index hindex
    obtain ⟨-, ⟨flip, hless, hsome, hback⟩, -⟩ := validateJoint_ok.mp (hjoints index hindex)
    have hat : schema.flipAt index = flip := by
      rw [ClassKeypointSchema.flipAt, List.getD_eq_getElem?_getD, hsome, Option.getD_some]
    have hatBack : schema.flipAt flip = index := by
      rw [ClassKeypointSchema.flipAt, List.getD_eq_getElem?_getD, hback, Option.getD_some]
    exact ⟨hat.symm ▸ hless, (congrArg schema.flipAt hat).trans hatBack⟩
  exact {
    count_le := hcount
    flips_length := hflips
    sigmas_length := hsigmas
    edges_le := hskeleton
    bounded := by
      intro name hname
      obtain ⟨index, hindex, rfl⟩ := List.getElem_of_mem hname
      exact (validateJoint_ok.mp (hjoints index hindex)).1.1
    nodup := nodup_iff_take.mpr fun index hindex =>
      (validateJoint_ok.mp (hjoints index hindex)).1.2
    flip_lt := fun index hindex => (hflip index hindex).1
    flip_flip := fun index hindex => (hflip index hindex).2
    sigma := by
      intro index hindex
      obtain ⟨-, -, sigma, hsome, hgood⟩ := validateJoint_ok.mp (hjoints index hindex)
      rw [ClassKeypointSchema.sigmaAt, List.getD_eq_getElem?_getD, hsome, Option.getD_some]
      exact hgood
    edge_lt := by
      intro edge hedge
      obtain ⟨index, hindex, rfl⟩ := List.getElem_of_mem hedge
      exact (validateEdge_ok.mp (hedges index hindex)).1
    edges_nodup := by
      refine nodup_iff_take.mpr fun index hindex => ?_
      rw [List.length_map] at hindex
      rw [List.getElem_map]
      exact (validateEdge_ok.mp (hedges index hindex)).2 }

theorem Valid.checks (h : Valid schema) :
    (∀ index (h : index < schema.names.length),
      validateJoint schema schema.names[index] index = .ok ()) ∧
    ∀ index (h : index < schema.skeleton.length),
      validateEdge schema schema.skeleton[index] index = .ok () := by
  have hflipAt : ∀ index < schema.names.length,
      schema.horizontalFlip[index]? = some (schema.flipAt index) := by
    intro index hindex
    have hlength : index < schema.horizontalFlip.length := h.flips_length.symm ▸ hindex
    rw [ClassKeypointSchema.flipAt, getD_of_lt hlength, List.getElem?_eq_getElem hlength]
  constructor
  · intro index hindex
    refine validateJoint_ok.mpr ⟨⟨h.bounded _ (List.getElem_mem hindex),
      nodup_iff_take.mp h.nodup index hindex⟩, ⟨_, h.flip_lt index hindex, hflipAt index hindex, ?_⟩,
      schema.sigmaAt index, ?_, h.sigma index hindex⟩
    · rw [hflipAt _ (h.flip_lt index hindex), h.flip_flip index hindex]
    · have hlength : index < schema.oksSigmas.length := h.sigmas_length.symm ▸ hindex
      rw [ClassKeypointSchema.sigmaAt, getD_of_lt hlength, List.getElem?_eq_getElem hlength]
  · intro index hindex
    refine validateEdge_ok.mpr ⟨h.edge_lt _ (List.getElem_mem hindex), ?_⟩
    have hmapped : index < (schema.skeleton.map orderedEdge).length := by rwa [List.length_map]
    have hfresh := nodup_iff_take.mp h.edges_nodup index hmapped
    rwa [List.getElem_map] at hfresh

theorem validateKeypointSchema_ok : validateKeypointSchema schema = .ok () ↔ Valid schema := by
  simp only [validateKeypointSchema, throw, throwThe, MonadExceptOf.throw]
  split
  next hcounts =>
    refine iff_of_false nofun fun h => ?_
    rcases hcounts with hcount | hflips | hsigmas | hedges
    · exact absurd h.count_le (Nat.not_le.mpr hcount)
    · exact hflips h.flips_length
    · exact hsigmas h.sigmas_length
    · exact absurd h.edges_le (Nat.not_le.mpr hedges)
  next hcounts =>
    simp only [not_or, Nat.not_lt, ne_eq, not_not] at hcounts
    rw [bind_eq_ok]
    constructor
    · rintro ⟨⟨⟩, hjoints, hedges⟩
      exact valid_of_checks hcounts (forall_mem_zipIdx.mp (forM_eq_ok.mp hjoints))
        (forall_mem_zipIdx.mp (forM_eq_ok.mp hedges))
    · intro h
      exact ⟨(), forM_eq_ok.mpr (forall_mem_zipIdx.mpr h.checks.1),
        forM_eq_ok.mpr (forall_mem_zipIdx.mpr h.checks.2)⟩

end Validation

/-! ### Joints by name -/

section Matching

variable {source destination : ClassKeypointSchema F} {index target : Nat} {exact : Bool}
  {pairs : List (Nat × Nat)}

omit [ExactFloating F] in
theorem nameAt_of_lt {schema : ClassKeypointSchema F} (h : index < schema.names.length) :
    schema.nameAt index = schema.names[index] := getD_of_lt h

theorem Valid.nameAt_inj (h : Valid source) {other : Nat} (hindex : index < source.names.length)
    (hother : other < source.names.length) (heq : source.nameAt index = source.nameAt other) :
    index = other := by
  rw [nameAt_of_lt hindex, nameAt_of_lt hother] at heq
  exact (List.Nodup.getElem_inj_iff h.nodup).mp heq

/-- A name that is there once is found where it is. -/
theorem idxOf?_eq_some_of_nodup {names : List String} (h : names.Nodup) {name : String} :
    names.idxOf? name = some index ↔ index < names.length ∧ names.getD index "" = name := by
  rw [List.idxOf?_eq_some_iff]
  constructor
  · rintro ⟨hindex, hname, -⟩
    exact ⟨hindex, (getD_of_lt hindex).trans hname⟩
  · rintro ⟨hindex, rfl⟩
    refine ⟨hindex, (getD_of_lt hindex).symm, fun other hless => ?_⟩
    rw [getD_of_lt hindex]
    exact fun heq => absurd ((List.Nodup.getElem_inj_iff h).mp heq) hless.ne

theorem Valid.jointLookup_eq (h : Valid source) {name : String} :
    jointLookup source name = some index ↔
      index < source.names.length ∧ source.nameAt index = name :=
  idxOf?_eq_some_of_nodup h.nodup

omit [ExactFloating F] in
theorem jointLookup_isNone {name : String} : jointLookup source name = none ↔ name ∉ source.names :=
  List.idxOf?_eq_none_iff

/-- A joint of each schema, both of one name. -/
structure SharedJoint (source destination : ClassKeypointSchema F) (index target : Nat) : Prop where
  index_lt : index < source.names.length
  target_lt : target < destination.names.length
  name_eq : source.nameAt index = destination.nameAt target

omit [ExactFloating F] in
theorem SharedJoint.symm (h : SharedJoint source destination index target) :
    SharedJoint destination source target index :=
  ⟨h.target_lt, h.index_lt, h.name_eq.symm⟩

/-- Shared joints have one sigma and one mirror image, and the same edges between them. -/
structure Agree (source destination : ClassKeypointSchema F) : Prop where
  sigma : ∀ index target, SharedJoint source destination index target →
    source.sigmaAt index = destination.sigmaAt target
  flip : ∀ index target, SharedJoint source destination index target →
    source.nameAt (source.flipAt index) = destination.nameAt (destination.flipAt target)
  edges : sharedEdges source destination = sharedEdges destination source

theorem Agree.symm (h : Agree source destination) : Agree destination source where
  sigma index target hshared := (h.sigma target index hshared.symm).symm
  flip index target hshared := (h.flip target index hshared.symm).symm
  edges := h.edges.symm

theorem disagrees_eq_false (hsource : Valid source) (hindex : index < source.names.length) :
    disagrees source destination index target = false ↔
      source.sigmaAt index = destination.sigmaAt target ∧
        source.nameAt (source.flipAt index) = destination.nameAt (destination.flipAt target) := by
  obtain ⟨hfinite, hpos⟩ := hsource.sigma index hindex
  rw [disagrees, Bool.or_eq_false_iff, bne_eq_false_iff_eq (α := String)]
  refine and_congr_left fun _ => ?_
  rw [bne, Bool.not_eq_false']
  constructor
  · exact ExactFloating.eq_of_beq hfinite hpos
  · intro h
    rw [← h]
    exact Floating.beq_of_finite hfinite

/-- The joints of the destination that the source has, each with the source's. -/
def pairsOf (source : ClassKeypointSchema F) (names : List (String × Nat)) : List (Nat × Nat) :=
  names.filterMap fun named => (jointLookup source named.1).map (·, named.2)

/-- What the loop asks of a joint. -/
def Corresponds (source destination : ClassKeypointSchema F) (exact : Bool) (named : String × Nat) :
    Prop :=
  match jointLookup source named.1 with
  | none => exact = false
  | some index => disagrees source destination index named.2 = false

theorem correspondFrom_ok {names : List String} :
    correspondFrom source destination exact target names = .ok pairs ↔
      (∀ named ∈ names.zipIdx target, Corresponds source destination exact named) ∧
        pairs = pairsOf source (names.zipIdx target) := by
  induction names generalizing target pairs with
  | nil =>
      rw [correspondFrom]
      exact ⟨fun h => by cases h; exact ⟨List.forall_mem_nil _, rfl⟩, fun h => by rw [h.2]; rfl⟩
  | cons name rest ih =>
      rw [correspondFrom, List.zipIdx_cons, List.forall_mem_cons, Corresponds, pairsOf,
        List.filterMap_cons]
      dsimp only
      cases hfound : jointLookup source name with
      | none =>
          dsimp only [Option.map_none]
          cases exact with
          | true => exact iff_of_false nofun fun h => nomatch h.1.1
          | false =>
              rw [if_neg Bool.false_ne_true, ih, eq_self_iff_true, true_and]
              rfl
      | some index =>
          dsimp only [Option.map_some]
          cases hagrees : disagrees source destination index target with
          | true => exact iff_of_false nofun fun h => nomatch h.1.1
          | false =>
              rw [if_neg Bool.false_ne_true, eq_self_iff_true, true_and]
              cases hrest : correspondFrom source destination exact (target + 1) rest with
              | error failure =>
                  refine iff_of_false nofun fun h => ?_
                  have hok := ih.mpr ⟨h.1, rfl⟩
                  rw [hrest] at hok
                  cases hok
              | ok later =>
                  obtain ⟨hmatches, hlater⟩ := ih.mp hrest
                  constructor
                  · intro h
                    cases h
                    exact ⟨hmatches, congrArg _ hlater⟩
                  · intro h
                    rw [h.2, hlater]
                    rfl

theorem mem_pairsOf (hsource : Valid source) :
    (index, target) ∈ pairsOf source destination.names.zipIdx ↔
      SharedJoint source destination index target := by
  rw [pairsOf, List.mem_filterMap]
  constructor
  · rintro ⟨⟨name, place⟩, hmem, hfound⟩
    obtain ⟨other, hlookup, heq⟩ := Option.map_eq_some_iff.mp hfound
    cases heq
    obtain ⟨hindex, hname⟩ := hsource.jointLookup_eq.mp hlookup
    obtain ⟨htarget, rfl⟩ := List.getElem?_eq_some_iff.mp (List.mk_mem_zipIdx_iff_getElem?.mp hmem)
    exact ⟨hindex, htarget, hname.trans (nameAt_of_lt htarget).symm⟩
  · rintro ⟨hindex, htarget, hname⟩
    refine ⟨(destination.names[target], target),
      List.mk_mem_zipIdx_iff_getElem?.mpr (List.getElem?_eq_getElem htarget), ?_⟩
    rw [hsource.jointLookup_eq.mpr ⟨hindex, hname.trans (nameAt_of_lt htarget)⟩]
    rfl

/-- Every joint of the destination is one of the source. -/
def Names (source destination : ClassKeypointSchema F) : Prop :=
  source.names.length = destination.names.length ∧ ∀ name ∈ destination.names, name ∈ source.names

theorem corresponds_iff (hsource : Valid source) :
    (∀ named ∈ destination.names.zipIdx, Corresponds source destination exact named) ↔
      (exact = true → ∀ name ∈ destination.names, name ∈ source.names) ∧
        ∀ index target, SharedJoint source destination index target →
          source.sigmaAt index = destination.sigmaAt target ∧
            source.nameAt (source.flipAt index) = destination.nameAt (destination.flipAt target) := by
  rw [forall_mem_zipIdx]
  constructor
  · intro h
    refine ⟨fun hexact name hname => ?_, fun index target hshared => ?_⟩
    · obtain ⟨place, hplace, rfl⟩ := List.getElem_of_mem hname
      have hmatch := h place hplace
      rw [Corresponds] at hmatch
      by_contra hmissing
      rw [jointLookup_isNone.mpr hmissing] at hmatch
      exact Bool.false_ne_true (hmatch.symm.trans hexact)
    · have hmatch := h target hshared.target_lt
      rw [Corresponds, hsource.jointLookup_eq.mpr
        ⟨hshared.index_lt, hshared.name_eq.trans (nameAt_of_lt hshared.target_lt)⟩] at hmatch
      exact (disagrees_eq_false hsource hshared.index_lt).mp hmatch
  · rintro ⟨hnames, hagree⟩ place hplace
    rw [Corresponds]
    dsimp only
    split
    next hmissing =>
      rw [jointLookup_isNone] at hmissing
      by_contra hexact
      exact hmissing (hnames (Bool.not_eq_false _ ▸ hexact) _ (List.getElem_mem hplace))
    next index hfound =>
      obtain ⟨hindex, hname⟩ := hsource.jointLookup_eq.mp hfound
      exact (disagrees_eq_false hsource hindex).mpr
        (hagree index place ⟨hindex, hplace, hname.trans (nameAt_of_lt hplace).symm⟩)

/-- When two schemas correspond, and by which joints. -/
theorem jointCorrespondence_ok :
    jointCorrespondence source destination exact = .ok pairs ↔
      Valid source ∧ Valid destination ∧ Agree source destination ∧
        (exact = true → Names source destination) ∧
        pairs = pairsOf source destination.names.zipIdx := by
  simp only [jointCorrespondence, throw, throwThe, MonadExceptOf.throw]
  rw [bind_eq_ok]
  constructor
  · rintro ⟨⟨⟩, hsource, h⟩
    rw [validateKeypointSchema_ok] at hsource
    obtain ⟨⟨⟩, hdestination, h⟩ := bind_eq_ok.mp h
    rw [validateKeypointSchema_ok] at hdestination
    split at h
    · cases h
    next hlength =>
      obtain ⟨found, hfound, h⟩ := bind_eq_ok.mp h
      obtain ⟨hmatches, rfl⟩ := correspondFrom_ok.mp hfound
      obtain ⟨hnames, hagree⟩ := (corresponds_iff hsource).mp hmatches
      split at h
      · cases h
      next hedges =>
        cases h
        refine ⟨hsource, hdestination, ⟨fun index target hshared => (hagree _ _ hshared).1,
          fun index target hshared => (hagree _ _ hshared).2, not_not.mp hedges⟩,
          fun hexact => ⟨?_, hnames hexact⟩, rfl⟩
        by_contra hdiffer
        exact hlength ⟨hexact, hdiffer⟩
  · rintro ⟨hsource, hdestination, hagree, hnames, rfl⟩
    refine ⟨(), validateKeypointSchema_ok.mpr hsource, bind_eq_ok.mpr ⟨(),
      validateKeypointSchema_ok.mpr hdestination, ?_⟩⟩
    rw [if_neg fun h => h.2 (hnames h.1).1]
    refine bind_eq_ok.mpr ⟨_, correspondFrom_ok.mpr ⟨(corresponds_iff hsource).mpr
      ⟨fun hexact => (hnames hexact).2, fun index target hshared =>
        ⟨hagree.sigma _ _ hshared, hagree.flip _ _ hshared⟩⟩, rfl⟩, ?_⟩
    rw [if_neg (not_not.mpr hagree.edges)]
    rfl

/-- Shared joints are found from either side, with the pairs turned round. -/
theorem sharedKeypointCorrespondence_symm
    (h : sharedKeypointCorrespondence source destination = .ok pairs) :
    ∃ turned, sharedKeypointCorrespondence destination source = .ok turned ∧
      ∀ index target, (index, target) ∈ pairs ↔ (target, index) ∈ turned := by
  obtain ⟨hsource, hdestination, hagree, -, rfl⟩ := jointCorrespondence_ok.mp h
  refine ⟨_, jointCorrespondence_ok.mpr ⟨hdestination, hsource, hagree.symm, nofun, rfl⟩, ?_⟩
  intro index target
  rw [mem_pairsOf hsource, mem_pairsOf hdestination]
  exact ⟨SharedJoint.symm, SharedJoint.symm⟩

omit [ExactFloating F] in
theorem pairsOf_targets (names : List (String × Nat)) :
    ((pairsOf source names).map Prod.snd).Sublist (names.map Prod.snd) := by
  induction names with
  | nil => exact .slnil
  | cons named rest ih =>
      rw [pairsOf, List.filterMap_cons]
      cases jointLookup source named.1 with
      | none => exact ih.cons _
      | some index => exact ih.cons_cons _

/-- A partial map, and one-to-one: no joint of either side is in two pairs. -/
theorem pairsOf_nodup (hsource : Valid source) (hdestination : Valid destination) :
    ((pairsOf source destination.names.zipIdx).map Prod.fst).Nodup ∧
      ((pairsOf source destination.names.zipIdx).map Prod.snd).Nodup := by
  have htargets : ((pairsOf source destination.names.zipIdx).map Prod.snd).Nodup := by
    refine (pairsOf_targets _).nodup ?_
    rw [List.zipIdx_map_snd]
    exact List.nodup_range'
  refine ⟨?_, htargets⟩
  refine (List.Nodup.of_map _ htargets).map_on fun pair hpair other hother heq => ?_
  have hshared : SharedJoint source destination pair.1 pair.2 := (mem_pairsOf hsource).mp hpair
  have hshared' : SharedJoint source destination other.1 other.2 := (mem_pairsOf hsource).mp hother
  have hnames : destination.nameAt pair.2 = destination.nameAt other.2 :=
    hshared.name_eq.symm.trans ((congrArg source.nameAt heq).trans hshared'.name_eq)
  exact Prod.ext heq (hdestination.nameAt_inj hshared.target_lt hshared'.target_lt hnames)

theorem sharedKeypointCorrespondence_injective
    (h : sharedKeypointCorrespondence source destination = .ok pairs) :
    (pairs.map Prod.fst).Nodup ∧ (pairs.map Prod.snd).Nodup := by
  obtain ⟨hsource, hdestination, -, -, rfl⟩ := jointCorrespondence_ok.mp h
  exact pairsOf_nodup hsource hdestination

end Matching

/-! ### Edges without their orientation -/

def edgePair (edge : SkeletonEdge) : Sym2 Nat := s(edge.first, edge.second)

@[simp] theorem edgePair_orderedEdge (edge : SkeletonEdge) :
    edgePair (orderedEdge edge) = edgePair edge := by
  rw [orderedEdge]
  split
  · exact Sym2.eq_swap
  · rfl

@[simp] theorem edgePair_moveEdge (permutation : List Nat) (edge : SkeletonEdge) :
    edgePair (moveEdge permutation edge) = (edgePair edge).map (targetAt permutation) :=
  edgePair_orderedEdge _

theorem orderedEdge_eq_iff {edge other : SkeletonEdge} :
    orderedEdge edge = orderedEdge other ↔ edgePair edge = edgePair other := by
  refine ⟨fun h => ?_, fun h => ?_⟩
  · rw [← edgePair_orderedEdge edge, h, edgePair_orderedEdge]
  · obtain ⟨first, second⟩ := edge
    obtain ⟨first', second'⟩ := other
    rcases Sym2.eq_iff.mp h with ⟨rfl, rfl⟩ | ⟨rfl, rfl⟩
    · rfl
    · simp only [orderedEdge]
      split_ifs <;> simp only [SkeletonEdge.mk.injEq] <;> omega

theorem orderedNames_eq_iff {first second first' second' : String} :
    orderedNames first second = orderedNames first' second' ↔ s(first, second) = s(first', second') := by
  have hpair : ∀ first second : String,
      s((orderedNames first second).1, (orderedNames first second).2) = s(first, second) := by
    intro first second
    rw [orderedNames]
    split
    · exact Sym2.eq_swap
    · rfl
  refine ⟨fun h => ?_, fun h => ?_⟩
  · rw [← hpair first second, h, hpair]
  · rcases Sym2.eq_iff.mp h with ⟨rfl, rfl⟩ | ⟨rfl, rfl⟩
    · rfl
    · simp only [orderedNames]
      rcases lt_trichotomy first second with hless | rfl | hmore
      · rw [if_neg hless.not_gt, if_pos hless]
      · rfl
      · rw [if_pos hmore, if_neg hmore.not_gt]

/-- The names at the ends of an edge. -/
def namedEdge (schema : ClassKeypointSchema F) (edge : SkeletonEdge) : Sym2 String :=
  (edgePair edge).map schema.nameAt

section Edges

variable {source destination : ClassKeypointSchema F}

omit [ExactFloating F] in
theorem mem_sharedEdges {names : String × String} :
    names ∈ sharedEdges source destination ↔
      ∃ edge ∈ source.skeleton, (source.nameAt edge.first ∈ destination.names ∧
        source.nameAt edge.second ∈ destination.names) ∧
        orderedNames (source.nameAt edge.first) (source.nameAt edge.second) = names := by
  rw [sharedEdges, List.mem_toFinset, List.mem_filterMap]
  refine exists_congr fun edge => and_congr_right fun _ => ?_
  simp only [Bool.or_eq_true, Option.isNone_iff_eq_none, jointLookup_isNone]
  split
  next hmissing =>
    refine iff_of_false nofun fun h => ?_
    exact hmissing.elim (· h.1.1) (· h.1.2)
  next hshared =>
    obtain ⟨hfirst, hsecond⟩ := not_or.mp hshared
    rw [Option.some_inj]
    exact (and_iff_right ⟨not_not.mp hfirst, not_not.mp hsecond⟩).symm

/-- Where all joints are shared, so are all edges. -/
theorem orderedNames_mem_sharedEdges (hsource : Valid source)
    (hnames : ∀ name ∈ source.names, name ∈ destination.names) {first second : String} :
    orderedNames first second ∈ sharedEdges source destination ↔
      s(first, second) ∈ source.skeleton.map (namedEdge source) := by
  rw [mem_sharedEdges, List.mem_map]
  refine exists_congr fun edge => and_congr_right fun hedge => ?_
  obtain ⟨hfirst, hsecond, -⟩ := hsource.edge_lt edge hedge
  have hends : source.nameAt edge.first ∈ destination.names ∧
      source.nameAt edge.second ∈ destination.names := by
    rw [nameAt_of_lt hfirst, nameAt_of_lt hsecond]
    exact ⟨hnames _ (List.getElem_mem hfirst), hnames _ (List.getElem_mem hsecond)⟩
  rw [and_iff_right hends, orderedNames_eq_iff]
  rfl

theorem sharedEdges_eq_iff (hsource : Valid source) (hdestination : Valid destination)
    (hnames : ∀ name, name ∈ source.names ↔ name ∈ destination.names) :
    sharedEdges source destination = sharedEdges destination source ↔
      ∀ named, named ∈ source.skeleton.map (namedEdge source) ↔
        named ∈ destination.skeleton.map (namedEdge destination) := by
  have hmem : ∀ first second, orderedNames first second ∈ sharedEdges source destination ↔
      s(first, second) ∈ source.skeleton.map (namedEdge source) := fun _ _ =>
    orderedNames_mem_sharedEdges hsource fun name => (hnames name).mp
  have hmem' : ∀ first second, orderedNames first second ∈ sharedEdges destination source ↔
      s(first, second) ∈ destination.skeleton.map (namedEdge destination) := fun _ _ =>
    orderedNames_mem_sharedEdges hdestination fun name => (hnames name).mpr
  constructor
  · intro h named
    induction named with
    | h first second => rw [← hmem, ← hmem', h]
  · intro h
    refine Finset.ext fun names => ?_
    constructor
    · intro hin
      obtain ⟨edge, hedge, -, rfl⟩ := mem_sharedEdges.mp hin
      exact (hmem' _ _).mpr ((h _).mp ((hmem _ _).mp hin))
    · intro hin
      obtain ⟨edge, hedge, -, rfl⟩ := mem_sharedEdges.mp hin
      exact (hmem _ _).mpr ((h _).mpr ((hmem' _ _).mp hin))

end Edges

end Mmltk.Catalog
