import Mmltk.Catalog.KeypointPermutation

namespace Mmltk.Catalog

open Mmltk.Foundation

/-! What a permutation of joints keeps, and the schemas that are permutations of one another. -/

variable {F : Type} [ExactFloating F]

/-- Each joint of the source is at its target, with the mirror image at the target of its own; the
edges are the moved ones, in any order and either way round. -/
structure Carries (source destination : ClassKeypointSchema F) (permutation : List Nat) : Prop where
  bijective : Bijective source.names.length permutation
  names_length : destination.names.length = source.names.length
  flips_length : destination.horizontalFlip.length = source.names.length
  sigmas_length : destination.oksSigmas.length = source.names.length
  name : ∀ index < source.names.length,
    destination.nameAt (targetAt permutation index) = source.nameAt index
  flip : ∀ index < source.names.length,
    destination.flipAt (targetAt permutation index) = targetAt permutation (source.flipAt index)
  sigma : ∀ index < source.names.length,
    destination.sigmaAt (targetAt permutation index) = source.sigmaAt index
  edges : (destination.skeleton.map edgePair).Perm
    ((source.skeleton.map edgePair).map (Sym2.map (targetAt permutation)))

/-- The same schema, but for the order and the orientation of its edges. -/
structure SameUpToEdges (schema other : ClassKeypointSchema F) : Prop where
  names : other.names = schema.names
  flips : other.horizontalFlip = schema.horizontalFlip
  sigmas : other.oksSigmas = schema.oksSigmas
  edges : (other.skeleton.map edgePair).Perm (schema.skeleton.map edgePair)

section Permuting

variable {source destination : ClassKeypointSchema F} {permutation : List Nat}

theorem checkTargets_ok {count : Nat} {seen targets : List Nat} :
    checkTargets count seen targets = .ok () ↔
      targets.Nodup ∧ ∀ target ∈ targets, target < count ∧ target ∉ seen := by
  induction targets generalizing seen with
  | nil => exact iff_of_true rfl ⟨List.nodup_nil, List.forall_mem_nil _⟩
  | cons target rest ih =>
      rw [checkTargets, guard_eq_ok, ih, List.nodup_cons, List.forall_mem_cons, not_or, Nat.not_le]
      constructor
      · rintro ⟨hfirst, hrest, hlater⟩
        refine ⟨⟨fun hmem => (hlater target hmem).2 List.mem_cons_self, hrest⟩, hfirst,
          fun other hother => ⟨(hlater other hother).1, fun hseen => ?_⟩⟩
        exact (hlater other hother).2 (List.mem_cons_of_mem _ hseen)
      · rintro ⟨⟨hfresh, hrest⟩, hfirst, hlater⟩
        refine ⟨hfirst, hrest, fun other hother => ⟨(hlater other hother).1, ?_⟩⟩
        rw [List.mem_cons, not_or]
        exact ⟨ne_of_mem_of_not_mem hother hfresh, (hlater other hother).2⟩

theorem permuteKeypointSchema_ok :
    permuteKeypointSchema source permutation = .ok destination ↔
      Valid source ∧ Bijective source.names.length permutation ∧
        destination = permuted source permutation := by
  simp only [permuteKeypointSchema, throw, throwThe, MonadExceptOf.throw]
  rw [bind_eq_ok]
  constructor
  · rintro ⟨⟨⟩, hsource, h⟩
    rw [validateKeypointSchema_ok] at hsource
    split at h
    · cases h
    next hlength =>
      obtain ⟨⟨⟩, htargets, h⟩ := bind_eq_ok.mp h
      obtain ⟨hnodup, hlt⟩ := checkTargets_ok.mp htargets
      cases h
      exact ⟨hsource, ⟨not_not.mp hlength, hnodup, fun target hmem => (hlt target hmem).1⟩, rfl⟩
  · rintro ⟨hsource, hbijective, rfl⟩
    refine ⟨(), validateKeypointSchema_ok.mpr hsource, ?_⟩
    rw [if_neg (not_not.mpr hbijective.length_eq)]
    refine bind_eq_ok.mpr ⟨(), checkTargets_ok.mpr ⟨hbijective.nodup, fun target hmem =>
      ⟨hbijective.lt target hmem, List.not_mem_nil⟩⟩, rfl⟩

theorem getD_placeAll {α : Type} {fill : α} {values : List α} {count index : Nat}
    (h : Bijective count permutation) (hvalues : values.length = count) (hindex : index < count) :
    (placeAll fill permutation values).getD (targetAt permutation index) fill =
      values.getD index fill := by
  rw [List.getD_eq_getElem?_getD, placeAll_target h hvalues hindex, List.getD_eq_getElem?_getD]

theorem permuted_edges (source : ClassKeypointSchema F) (permutation : List Nat) :
    ((permuted source permutation).skeleton.map edgePair).Perm
      ((source.skeleton.map edgePair).map (Sym2.map (targetAt permutation))) := by
  have hsorted := (List.perm_insertionSort SkeletonEdge.le
    (source.skeleton.map (moveEdge permutation))).map edgePair
  refine hsorted.trans (.of_eq ?_)
  rw [List.map_map, List.map_map]
  exact List.map_congr_left fun edge _ => edgePair_moveEdge permutation edge

/-- A permuted schema carries what the source has. -/
theorem permuted_carries (hsource : Valid source)
    (hbijective : Bijective source.names.length permutation) :
    Carries source (permuted source permutation) permutation where
  bijective := hbijective
  names_length := length_placeAll.trans hbijective.length_eq
  flips_length := length_placeAll.trans hbijective.length_eq
  sigmas_length := length_placeAll.trans hbijective.length_eq
  name _ hindex := getD_placeAll hbijective rfl hindex
  flip index hindex := by
    have hflips : (source.horizontalFlip.map (targetAt permutation)).length =
        source.names.length := List.length_map _ |>.trans hsource.flips_length
    refine (getD_placeAll hbijective hflips hindex).trans ?_
    exact targetAt_map _ (hsource.flips_length.symm ▸ hindex)
  sigma _ hindex := getD_placeAll hbijective hsource.sigmas_length hindex
  edges := permuted_edges source permutation

theorem Carries.same (h : Carries source destination permutation)
    {other : ClassKeypointSchema F} (hother : Carries source other permutation) :
    SameUpToEdges destination other := by
  have hlists : ∀ {α : Type} {fill : α} {list list' : List α},
      list.length = source.names.length → list'.length = source.names.length →
      (∀ index < source.names.length, list'.getD (targetAt permutation index) fill =
        list.getD (targetAt permutation index) fill) → list' = list := by
    intro α fill list list' hlength hlength' hsame
    refine h.bijective.ext hlength' hlength fun index hindex => ?_
    have htarget := h.bijective.target_lt hindex
    have heq := hsame index hindex
    rw [getD_of_lt (hlength' ▸ htarget), getD_of_lt (hlength ▸ htarget)] at heq
    rw [List.getElem?_eq_getElem (hlength' ▸ htarget), List.getElem?_eq_getElem (hlength ▸ htarget),
      heq]
  exact {
    names := hlists h.names_length hother.names_length fun index hindex =>
      (hother.name index hindex).trans (h.name index hindex).symm
    flips := hlists h.flips_length hother.flips_length fun index hindex =>
      (hother.flip index hindex).trans (h.flip index hindex).symm
    sigmas := hlists h.sigmas_length hother.sigmas_length fun index hindex =>
      (hother.sigma index hindex).trans (h.sigma index hindex).symm
    edges := hother.edges.trans h.edges.symm }

theorem Carries.of_same (h : Carries source destination permutation)
    {other : ClassKeypointSchema F} (hsame : SameUpToEdges destination other) :
    Carries source other permutation where
  bijective := h.bijective
  names_length := (congrArg List.length hsame.names).trans h.names_length
  flips_length := (congrArg List.length hsame.flips).trans h.flips_length
  sigmas_length := (congrArg List.length hsame.sigmas).trans h.sigmas_length
  name index hindex := by
    rw [ClassKeypointSchema.nameAt, hsame.names]
    exact h.name index hindex
  flip index hindex := by
    rw [ClassKeypointSchema.flipAt, hsame.flips]
    exact h.flip index hindex
  sigma index hindex := by
    rw [ClassKeypointSchema.sigmaAt, hsame.sigmas]
    exact h.sigma index hindex
  edges := hsame.edges.trans h.edges

theorem Valid.edgePair_lt (h : Valid source) {pair : Sym2 Nat}
    (hpair : pair ∈ source.skeleton.map edgePair) : ∀ index ∈ pair, index < source.names.length := by
  obtain ⟨edge, hedge, rfl⟩ := List.mem_map.mp hpair
  obtain ⟨hfirst, hsecond, -⟩ := h.edge_lt edge hedge
  intro index hindex
  rcases Sym2.mem_iff.mp hindex with rfl | rfl
  · exact hfirst
  · exact hsecond

theorem edges_nodup_iff {skeleton : List SkeletonEdge} :
    (skeleton.map orderedEdge).Nodup ↔ (skeleton.map edgePair).Nodup := by
  rw [List.Nodup, List.Nodup, List.pairwise_map, List.pairwise_map]
  exact iff_of_eq (congrArg (List.Pairwise · skeleton) (funext fun _ => funext fun _ =>
    congrArg Not (propext orderedEdge_eq_iff)))

theorem Carries.trans {last : ClassKeypointSchema F} {later : List Nat} (hsource : Valid source)
    (h : Carries source destination permutation) (hlater : Carries destination last later) :
    Carries source last (composeTargets permutation later) := by
  have hbijective : Bijective source.names.length later := h.names_length ▸ hlater.bijective
  have hcompose : ∀ index < source.names.length, targetAt (composeTargets permutation later) index =
      targetAt later (targetAt permutation index) := fun index hindex =>
    targetAt_map _ (h.bijective.length_eq.symm ▸ hindex)
  have hmiddle : ∀ index < source.names.length,
      targetAt permutation index < destination.names.length := fun index hindex =>
    h.names_length.symm ▸ h.bijective.target_lt hindex
  exact {
    bijective := h.bijective.compose hbijective
    names_length := hlater.names_length.trans h.names_length
    flips_length := hlater.flips_length.trans h.names_length
    sigmas_length := hlater.sigmas_length.trans h.names_length
    name := fun index hindex => by
      rw [hcompose index hindex, hlater.name _ (hmiddle index hindex), h.name index hindex]
    flip := fun index hindex => by
      rw [hcompose index hindex, hlater.flip _ (hmiddle index hindex), h.flip index hindex,
        hcompose _ (hsource.flip_lt index hindex)]
    sigma := fun index hindex => by
      rw [hcompose index hindex, hlater.sigma _ (hmiddle index hindex), h.sigma index hindex]
    edges := by
      refine hlater.edges.trans ((h.edges.map _).trans (.of_eq ?_))
      rw [List.map_map]
      refine List.map_congr_left fun pair hpair => ?_
      rw [Function.comp_apply, Sym2.map_map]
      exact Sym2.map_congr fun index hindex =>
        (hcompose index (hsource.edgePair_lt hpair index hindex)).symm }

theorem Carries.symm (hsource : Valid source) (h : Carries source destination permutation) :
    Carries destination source (inverseTargets permutation) := by
  have hinverse : Bijective source.names.length (inverseTargets permutation) := h.bijective.inverse
  have hback : ∀ index < source.names.length,
      ∃ other < source.names.length, targetAt permutation other = index ∧
        targetAt (inverseTargets permutation) index = other := by
    intro index hindex
    obtain ⟨other, hother, rfl⟩ := h.bijective.exists_target hindex
    exact ⟨other, hother, rfl, h.bijective.target_inverse hother⟩
  exact {
    bijective := h.names_length.symm ▸ hinverse
    names_length := h.names_length.symm
    flips_length := hsource.flips_length.trans h.names_length.symm
    sigmas_length := hsource.sigmas_length.trans h.names_length.symm
    name := fun index hindex => by
      obtain ⟨other, hother, rfl, hinv⟩ := hback index (h.names_length ▸ hindex)
      rw [hinv, h.name other hother]
    flip := fun index hindex => by
      obtain ⟨other, hother, rfl, hinv⟩ := hback index (h.names_length ▸ hindex)
      rw [hinv, h.flip other hother, h.bijective.target_inverse (hsource.flip_lt other hother)]
    sigma := fun index hindex => by
      obtain ⟨other, hother, rfl, hinv⟩ := hback index (h.names_length ▸ hindex)
      rw [hinv, h.sigma other hother]
    edges := by
      refine (List.Perm.of_eq ?_).trans (h.edges.map _).symm
      rw [List.map_map]
      refine (List.map_id _).symm.trans (List.map_congr_left fun pair hpair => ?_)
      rw [Function.comp_apply, Sym2.map_map]
      refine (congrFun Sym2.map_id pair).symm.trans (Sym2.map_congr fun index hindex => ?_)
      exact (h.bijective.target_inverse (hsource.edgePair_lt hpair index hindex)).symm }

theorem sym2_map_inj {α β : Type} {f : α → β} {pair other : Sym2 α}
    (hinjective : ∀ index ∈ pair, ∀ index' ∈ other, f index = f index' → index = index')
    (h : pair.map f = other.map f) : pair = other := by
  induction pair with
  | h first second =>
      induction other with
      | h first' second' =>
          have hfirst := Sym2.mem_mk_left first second
          have hsecond := Sym2.mem_mk_right first second
          have hfirst' := Sym2.mem_mk_left first' second'
          have hsecond' := Sym2.mem_mk_right first' second'
          rcases Sym2.eq_iff.mp h with ⟨hone, htwo⟩ | ⟨hone, htwo⟩
          · rw [hinjective _ hfirst _ hfirst' hone, hinjective _ hsecond _ hsecond' htwo]
          · rw [hinjective _ hfirst _ hsecond' hone, hinjective _ hsecond _ hfirst' htwo, Sym2.eq_swap]

theorem Carries.exists_joint (h : Carries source destination permutation) {index : Nat}
    (hindex : index < destination.names.length) :
    ∃ other < source.names.length, targetAt permutation other = index :=
  h.bijective.exists_target (h.names_length ▸ hindex)

theorem Carries.moved_edge (h : Carries source destination permutation)
    {edge : SkeletonEdge} (hedge : edge ∈ destination.skeleton) :
    ∃ moved ∈ source.skeleton, (edgePair moved).map (targetAt permutation) = edgePair edge := by
  have hmem := h.edges.mem_iff.mp (List.mem_map_of_mem hedge)
  rw [List.map_map] at hmem
  exact List.mem_map.mp hmem

theorem Valid.moved_nodup (hsource : Valid source)
    (hbijective : Bijective source.names.length permutation) :
    ((source.skeleton.map edgePair).map (Sym2.map (targetAt permutation))).Nodup := by
  refine (edges_nodup_iff.mp hsource.edges_nodup).map_on fun pair hpair other hother heq => ?_
  refine sym2_map_inj (fun index hindex index' hindex' hsame => ?_) heq
  exact hbijective.target_inj (hsource.edgePair_lt hpair index hindex)
    (hsource.edgePair_lt hother index' hindex') hsame

theorem Carries.valid (hsource : Valid source) (h : Carries source destination permutation) :
    Valid destination where
  count_le := h.names_length.trans_le hsource.count_le
  flips_length := h.flips_length.trans h.names_length.symm
  sigmas_length := h.sigmas_length.trans h.names_length.symm
  edges_le := by
    have hlength := h.edges.length_eq
    simp only [List.length_map] at hlength
    exact hlength.trans_le hsource.edges_le
  bounded := by
    intro name hname
    obtain ⟨index, hindex, rfl⟩ := List.getElem_of_mem hname
    obtain ⟨other, hother, heq⟩ := h.exists_joint hindex
    rw [← nameAt_of_lt hindex, ← heq, h.name other hother, nameAt_of_lt hother]
    exact hsource.bounded _ (List.getElem_mem hother)
  nodup := by
    refine List.pairwise_iff_getElem.mpr fun first second hfirst hsecond hless heq => ?_
    obtain ⟨one, hone, htarget⟩ := h.exists_joint hfirst
    obtain ⟨two, htwo, htarget'⟩ := h.exists_joint hsecond
    rw [← nameAt_of_lt hfirst, ← nameAt_of_lt hsecond, ← htarget, ← htarget', h.name one hone,
      h.name two htwo] at heq
    rw [← htarget, ← htarget', hsource.nameAt_inj hone htwo heq] at hless
    exact absurd hless (Nat.lt_irrefl _)
  flip_lt index hindex := by
    obtain ⟨other, hother, rfl⟩ := h.exists_joint hindex
    rw [h.flip other hother, h.names_length]
    exact h.bijective.target_lt (hsource.flip_lt other hother)
  flip_flip index hindex := by
    obtain ⟨other, hother, rfl⟩ := h.exists_joint hindex
    rw [h.flip other hother, h.flip _ (hsource.flip_lt other hother), hsource.flip_flip other hother]
  sigma index hindex := by
    obtain ⟨other, hother, rfl⟩ := h.exists_joint hindex
    rw [h.sigma other hother]
    exact hsource.sigma other hother
  edge_lt edge hedge := by
    obtain ⟨moved, hmoved, heq⟩ := h.moved_edge hedge
    obtain ⟨hfirst, hsecond, hdiffer⟩ := hsource.edge_lt moved hmoved
    have hone := h.bijective.target_lt hfirst
    have htwo := h.bijective.target_lt hsecond
    have hapart : targetAt permutation moved.first ≠ targetAt permutation moved.second := fun hsame =>
      hdiffer (h.bijective.target_inj hfirst hsecond hsame)
    rw [h.names_length]
    rcases Sym2.eq_iff.mp heq with ⟨hleft, hright⟩ | ⟨hleft, hright⟩
    · exact ⟨hleft ▸ hone, hright ▸ htwo, hleft ▸ hright ▸ hapart⟩
    · exact ⟨hright ▸ htwo, hleft ▸ hone, hleft ▸ hright ▸ hapart.symm⟩
  edges_nodup := edges_nodup_iff.mpr
    (h.edges.nodup_iff.mpr (hsource.moved_nodup h.bijective))

theorem Valid.map_names (hsource : Valid source)
    (hnames : ∀ index < source.names.length,
      destination.nameAt (targetAt permutation index) = source.nameAt index)
    {pair : Sym2 Nat} (hpair : pair ∈ source.skeleton.map edgePair) :
    (pair.map (targetAt permutation)).map destination.nameAt = pair.map source.nameAt := by
  rw [Sym2.map_map]
  exact Sym2.map_congr fun index hindex => hnames index (hsource.edgePair_lt hpair index hindex)

/-- A joint is shared with its target, and with no other. -/
theorem Carries.sharedJoint_iff (hsource : Valid source)
    (h : Carries source destination permutation) {index target : Nat} :
    SharedJoint source destination index target ↔
      index < source.names.length ∧ targetAt permutation index = target := by
  constructor
  · rintro ⟨hindex, htarget, hname⟩
    rw [← h.name index hindex] at hname
    exact ⟨hindex, (h.valid hsource).nameAt_inj
      (h.names_length.symm ▸ h.bijective.target_lt hindex) htarget hname⟩
  · rintro ⟨hindex, rfl⟩
    exact ⟨hindex, h.names_length.symm ▸ h.bijective.target_lt hindex, (h.name index hindex).symm⟩

theorem Carries.mem_names (h : Carries source destination permutation) {name : String}
    (hname : name ∈ destination.names) : name ∈ source.names := by
  obtain ⟨index, hindex, rfl⟩ := List.getElem_of_mem hname
  obtain ⟨other, hother, heq⟩ := h.exists_joint hindex
  rw [← nameAt_of_lt hindex, ← heq, h.name other hother, nameAt_of_lt hother]
  exact List.getElem_mem hother

theorem Carries.agree (hsource : Valid source) (h : Carries source destination permutation) :
    Agree source destination where
  sigma index target hshared := by
    obtain ⟨hindex, rfl⟩ := (h.sharedJoint_iff hsource).mp hshared
    exact (h.sigma index hindex).symm
  flip index target hshared := by
    obtain ⟨hindex, rfl⟩ := (h.sharedJoint_iff hsource).mp hshared
    rw [h.flip index hindex, h.name _ (hsource.flip_lt index hindex)]
  edges := by
    refine (sharedEdges_eq_iff hsource (h.valid hsource) fun name =>
      ⟨(h.symm hsource).mem_names, h.mem_names⟩).mpr fun named => ?_
    have hedges : (destination.skeleton.map (namedEdge destination)).Perm
        (source.skeleton.map (namedEdge source)) := by
      have hmapped := h.edges.map (Sym2.map destination.nameAt)
      rw [List.map_map, List.map_map] at hmapped
      refine hmapped.trans (.of_eq ?_)
      refine (List.map_congr_left fun pair hpair => hsource.map_names h.name hpair).trans ?_
      rw [List.map_map]
      rfl
    exact hedges.mem_iff.symm

theorem Carries.keypointPermutation (hsource : Valid source)
    (h : Carries source destination permutation) :
    keypointPermutation source destination = .ok permutation := by
  have hvalid := h.valid hsource
  have hnames : Names source destination := ⟨h.names_length.symm, fun _ => h.mem_names⟩
  rw [Catalog.keypointPermutation, jointCorrespondence_ok.mpr
    ⟨hsource, hvalid, h.agree hsource, fun _ => hnames, rfl⟩]
  refine congrArg Except.ok (List.ext_getElem? fun index => ?_)
  have hlength : (assignAll (List.replicate source.names.length 0)
      (pairsOf source destination.names.zipIdx)).length = source.names.length := by
    rw [length_assignAll, List.length_replicate]
  rcases Nat.lt_or_ge index source.names.length with hindex | hbehind
  · have hplace : index < permutation.length := h.bijective.length_eq.symm ▸ hindex
    rw [List.getElem?_eq_getElem hplace, ← targetAt_of_lt hplace]
    refine assignAll_mem (pairsOf_nodup hsource hvalid).1 ?_ (List.length_replicate.symm ▸ hindex)
    exact (mem_pairsOf hsource).mpr ((h.sharedJoint_iff hsource).mpr ⟨hindex, rfl⟩)
  · rw [List.getElem?_eq_none (hlength.trans_le hbehind),
      List.getElem?_eq_none (h.bijective.length_eq.trans_le hbehind)]

/-- Each joint has its partner where the names are the same. -/
theorem Names.exists_target (hdestination : Valid destination)
    (h : Names source destination) {index : Nat} (hindex : index < source.names.length) :
    ∃ target, SharedJoint source destination index target := by
  have hperm : destination.names.Perm source.names :=
    (List.subperm_of_subset hdestination.nodup h.2).perm_of_length_le h.1.le
  have hmem := hperm.mem_iff.mpr (List.getElem_mem hindex)
  obtain ⟨target, htarget, heq⟩ := List.getElem_of_mem hmem
  exact ⟨target, hindex, htarget,
    (nameAt_of_lt hindex).trans (heq.symm.trans (nameAt_of_lt htarget).symm)⟩

theorem carries_of_shared (hsource : Valid source) (hdestination : Valid destination)
    (hagree : Agree source destination) (hnames : Names source destination)
    (hlength : permutation.length = source.names.length)
    (hshared : ∀ index < source.names.length,
      SharedJoint source destination index (targetAt permutation index)) :
    Carries source destination permutation := by
  have hname : ∀ index < source.names.length,
      destination.nameAt (targetAt permutation index) = source.nameAt index :=
    fun index hindex => (hshared index hindex).name_eq.symm
  have hbijective : Bijective source.names.length permutation := by
    refine ⟨hlength, List.pairwise_iff_getElem.mpr fun first second hfirst hsecond hless heq => ?_,
      fun target htarget => ?_⟩
    · rw [← targetAt_of_lt hfirst, ← targetAt_of_lt hsecond] at heq
      have hsame := (hname first (hlength ▸ hfirst)).symm.trans
        ((congrArg destination.nameAt heq).trans (hname second (hlength ▸ hsecond)))
      exact hless.ne (hsource.nameAt_inj (hlength ▸ hfirst) (hlength ▸ hsecond) hsame)
    · obtain ⟨index, hindex, rfl⟩ := List.getElem_of_mem htarget
      rw [← targetAt_of_lt hindex, hnames.1]
      exact (hshared index (hlength ▸ hindex)).target_lt
  have hmembers : ∀ name, name ∈ source.names ↔ name ∈ destination.names := by
    refine fun name => ⟨fun hmem => ?_, hnames.2 name⟩
    obtain ⟨index, hindex, rfl⟩ := List.getElem_of_mem hmem
    rw [← nameAt_of_lt hindex, ← hname index hindex, nameAt_of_lt (hshared index hindex).target_lt]
    exact List.getElem_mem _
  have hedges := (sharedEdges_eq_iff hsource hdestination hmembers).mp hagree.edges
  have hnamed : ∀ pair ∈ source.skeleton.map edgePair, ∀ other ∈ destination.skeleton.map edgePair,
      pair.map source.nameAt = other.map destination.nameAt →
        pair.map (targetAt permutation) = other := by
    intro pair hpair other hother heq
    rw [← hsource.map_names hname hpair] at heq
    refine sym2_map_inj (fun index hindex index' hindex' hsame => ?_) heq
    obtain ⟨joint, hjoint, rfl⟩ := Sym2.mem_map.mp hindex
    exact hdestination.nameAt_inj (hshared joint (hsource.edgePair_lt hpair joint hjoint)).target_lt
      (hdestination.edgePair_lt hother index' hindex') hsame
  exact {
    bijective := hbijective
    names_length := hnames.1.symm
    flips_length := hdestination.flips_length.trans hnames.1.symm
    sigmas_length := hdestination.sigmas_length.trans hnames.1.symm
    name := hname
    flip := fun index hindex => by
      have hflip := hsource.flip_lt index hindex
      refine hdestination.nameAt_inj (hdestination.flip_lt _ (hshared index hindex).target_lt)
        (hshared _ hflip).target_lt ?_
      rw [hname _ hflip, hagree.flip index _ (hshared index hindex)]
    sigma := fun index hindex => (hagree.sigma index _ (hshared index hindex)).symm
    edges := by
      refine (List.perm_ext_iff_of_nodup (edges_nodup_iff.mp hdestination.edges_nodup)
        (hsource.moved_nodup hbijective)).mpr fun pair => ?_
      constructor
      · intro hpair
        obtain ⟨edge, hedge, rfl⟩ := List.mem_map.mp hpair
        obtain ⟨moved, hmoved, heq⟩ := List.mem_map.mp ((hedges _).mpr (List.mem_map_of_mem hedge))
        exact List.mem_map.mpr ⟨_, List.mem_map_of_mem hmoved,
          hnamed _ (List.mem_map_of_mem hmoved) _ hpair heq⟩
      · intro hpair
        obtain ⟨moved, hmoved, rfl⟩ := List.mem_map.mp hpair
        obtain ⟨edge, hedge, rfl⟩ := List.mem_map.mp hmoved
        obtain ⟨other, hother, heq⟩ := List.mem_map.mp ((hedges _).mp (List.mem_map_of_mem hedge))
        rw [hnamed _ hmoved _ (List.mem_map_of_mem hother) heq.symm]
        exact List.mem_map_of_mem hother }

/-- What is found carries the one schema to the other. -/
theorem carries_of_keypointPermutation (h : keypointPermutation source destination = .ok permutation) :
    Valid source ∧ Valid destination ∧ Carries source destination permutation := by
  obtain ⟨pairs, hpairs, hpermutation⟩ := bind_eq_ok.mp h
  obtain ⟨hsource, hdestination, hagree, hnames, rfl⟩ := jointCorrespondence_ok.mp hpairs
  have hnames := hnames rfl
  cases hpermutation
  have hlength : (assignAll (List.replicate source.names.length 0)
      (pairsOf source destination.names.zipIdx)).length = source.names.length := by
    rw [length_assignAll, List.length_replicate]
  refine ⟨hsource, hdestination, carries_of_shared hsource hdestination hagree hnames hlength ?_⟩
  intro index hindex
  obtain ⟨target, hshared⟩ := hnames.exists_target hdestination hindex
  have hassigned : (assignAll (List.replicate source.names.length 0)
      (pairsOf source destination.names.zipIdx))[index]? = some target :=
    assignAll_mem (pairsOf_nodup hsource hdestination).1 ((mem_pairsOf hsource).mpr hshared)
      (List.length_replicate.symm ▸ hindex)
  rwa [targetAt, List.getD_eq_getElem?_getD, hassigned, Option.getD_some]

theorem keypointPermutation_ok :
    keypointPermutation source destination = .ok permutation ↔
      Valid source ∧ Valid destination ∧ Carries source destination permutation :=
  ⟨carries_of_keypointPermutation, fun h => h.2.2.keypointPermutation h.1⟩

/-! ### One permutation after another -/

instance : Std.Total SkeletonEdge.le :=
  ⟨fun left right => by simp only [SkeletonEdge.le]; omega⟩

instance : IsTrans SkeletonEdge SkeletonEdge.le :=
  ⟨fun left middle right => by simp only [SkeletonEdge.le]; omega⟩

theorem insertionSort_edges {edges others : List SkeletonEdge} (h : edges.Perm others) :
    edges.insertionSort SkeletonEdge.le = others.insertionSort SkeletonEdge.le := by
  have hperm := (List.perm_insertionSort SkeletonEdge.le edges).trans
    (h.trans (List.perm_insertionSort SkeletonEdge.le others).symm)
  refine hperm.eq_of_pairwise (fun left right _ _ hle hge => ?_) (List.pairwise_insertionSort _ _)
    (List.pairwise_insertionSort _ _)
  obtain ⟨first, second⟩ := left
  obtain ⟨first', second'⟩ := right
  simp only [SkeletonEdge.le] at hle hge
  rw [SkeletonEdge.mk.injEq]
  omega

theorem moveEdge_moveEdge {later : List Nat} {edge : SkeletonEdge}
    (hfirst : edge.first < permutation.length) (hsecond : edge.second < permutation.length) :
    moveEdge later (moveEdge permutation edge) =
      moveEdge (composeTargets permutation later) edge := by
  refine orderedEdge_eq_iff.mpr ?_
  change (edgePair (moveEdge permutation edge)).map (targetAt later) = _
  rw [edgePair_moveEdge, edgePair, edgePair, Sym2.map_mk, Sym2.map_mk]
  dsimp only
  rw [composeTargets, targetAt_map _ hfirst, targetAt_map _ hsecond]

/-- Permuting twice is permuting by the composition. -/
theorem permuted_permuted {later : List Nat} (hsource : Valid source)
    (hbijective : Bijective source.names.length permutation)
    (hlater : Bijective source.names.length later) :
    permuted (permuted source permutation) later =
      permuted source (composeTargets permutation later) := by
  have hfirst := permuted_carries hsource hbijective
  have hnames : (permuted source permutation).names.length = source.names.length :=
    hfirst.names_length
  have htwice := hfirst.trans hsource (permuted_carries (hfirst.valid hsource) (hnames.symm ▸ hlater))
  have hsame := (permuted_carries hsource (hbijective.compose hlater)).same htwice
  have hskeleton : (permuted (permuted source permutation) later).skeleton =
      (permuted source (composeTargets permutation later)).skeleton := by
    refine insertionSort_edges ?_
    refine ((List.perm_insertionSort SkeletonEdge.le _).map _).trans (.of_eq ?_)
    rw [List.map_map]
    refine List.map_congr_left fun edge hedge => ?_
    obtain ⟨hone, htwo, -⟩ := hsource.edge_lt edge hedge
    exact moveEdge_moveEdge (hbijective.length_eq.symm ▸ hone) (hbijective.length_eq.symm ▸ htwo)
  have hext : ∀ {schema other : ClassKeypointSchema F}, schema.names = other.names →
      schema.skeleton = other.skeleton → schema.horizontalFlip = other.horizontalFlip →
      schema.oksSigmas = other.oksSigmas → schema = other := by
    rintro ⟨⟩ ⟨⟩ rfl rfl rfl rfl
    rfl
  exact hext hsame.names hskeleton hsame.flips hsame.sigmas

/-! ### The permutations between two schemas -/

/-- A permuted schema is valid, and its permutation is found again. -/
theorem permuteKeypointSchema_found (hsource : Valid source)
    (hbijective : Bijective source.names.length permutation) :
    ∃ moved, permuteKeypointSchema source permutation = .ok moved ∧ Valid moved ∧
      keypointPermutation source moved = .ok permutation := by
  have hcarries := permuted_carries hsource hbijective
  exact ⟨permuted source permutation, permuteKeypointSchema_ok.mpr ⟨hsource, hbijective, rfl⟩,
    hcarries.valid hsource, hcarries.keypointPermutation hsource⟩

theorem permuteKeypointSchema_twice {later : List Nat} (hsource : Valid source)
    (hbijective : Bijective source.names.length permutation)
    (hlater : Bijective source.names.length later) :
    (permuteKeypointSchema source permutation >>= fun moved => permuteKeypointSchema moved later) =
      permuteKeypointSchema source (composeTargets permutation later) := by
  have hcarries := permuted_carries hsource hbijective
  have hagain : Bijective (permuted source permutation).names.length later :=
    hcarries.names_length.symm ▸ hlater
  rw [permuteKeypointSchema_ok.mpr ⟨hsource, hbijective.compose hlater, rfl⟩]
  refine bind_eq_ok.mpr ⟨_, permuteKeypointSchema_ok.mpr ⟨hsource, hbijective, rfl⟩, ?_⟩
  refine permuteKeypointSchema_ok.mpr ⟨hcarries.valid hsource, hagain, ?_⟩
  exact (permuted_permuted hsource hbijective hlater).symm

/-- A schema carries to another what its permutation has, but for edges written another way. -/
theorem carries_iff_permuted (hsource : Valid source) :
    Carries source destination permutation ↔
      ∃ moved, permuteKeypointSchema source permutation = .ok moved ∧
        SameUpToEdges moved destination := by
  constructor
  · intro h
    exact ⟨_, permuteKeypointSchema_ok.mpr ⟨hsource, h.bijective, rfl⟩,
      (permuted_carries hsource h.bijective).same h⟩
  · rintro ⟨moved, hmoved, hsame⟩
    obtain ⟨-, hbijective, rfl⟩ := permuteKeypointSchema_ok.mp hmoved
    exact (permuted_carries hsource hbijective).of_same hsame

/-- What is found is the one permutation that gives the other schema. -/
theorem keypointPermutation_eq_ok_iff (hsource : Valid source) (hdestination : Valid destination) :
    keypointPermutation source destination = .ok permutation ↔
      ∃ moved, permuteKeypointSchema source permutation = .ok moved ∧
        SameUpToEdges moved destination := by
  rw [keypointPermutation_ok, ← carries_iff_permuted hsource, and_iff_right hsource,
    and_iff_right hdestination]

theorem keypointPermutation_inverse
    (h : keypointPermutation source destination = .ok permutation) :
    keypointPermutation destination source = .ok (inverseTargets permutation) := by
  obtain ⟨hsource, hdestination, hcarries⟩ := keypointPermutation_ok.mp h
  exact keypointPermutation_ok.mpr ⟨hdestination, hsource, hcarries.symm hsource⟩

end Permuting

end Mmltk.Catalog
