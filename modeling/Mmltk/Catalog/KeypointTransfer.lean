import Mmltk.Catalog.KeypointCarried

namespace Mmltk.Catalog

open Mmltk.Foundation

/-! The rows of a model's joint tensors that go over to those of another model. -/

variable {F : Type} [ExactFloating F]

/-- An admitted catalog: no name twice, and a validated schema for each class or none at all. -/
structure ClassCatalog (F : Type) [ExactFloating F] where
  names : List String
  keypointSchemas : List (ClassKeypointSchema F)
  nodup : names.Nodup
  schemas_length : keypointSchemas = [] ∨ keypointSchemas.length = names.length
  schemas_valid : ∀ schema ∈ keypointSchemas, validateKeypointSchema schema = .ok ()

namespace ClassCatalog

def resolve (catalog : ClassCatalog F) (name : String) : Option Nat := catalog.names.idxOf? name

def className (catalog : ClassCatalog F) (index : Nat) : String := catalog.names.getD index ""

/-- A catalog without schemas has the empty one for each class. -/
def schemaAt (catalog : ClassCatalog F) (index : Nat) : ClassKeypointSchema F :=
  catalog.keypointSchemas.getD index ⟨[], [], [], []⟩

def keypoints (catalog : ClassCatalog F) (index : Nat) : Except String (ClassKeypointSchema F) :=
  if catalog.names.length ≤ index then
    .error "foreground index exceeds admitted class catalog"
  else .ok (catalog.schemaAt index)

end ClassCatalog

inductive ClassScoreEncoding where
  | sigmoidLogits
  | softmaxLogits
  deriving DecidableEq, Repr

/-- An admitted layout: `slots` has the foreground index of each physical slot that has one, no
class has two slots, and each is one of the catalog. -/
structure ResolvedClassLayout (F : Type) [ExactFloating F] where
  catalog : ClassCatalog F
  slots : List (Option Nat)
  scores : ClassScoreEncoding
  semantic : Bool
  foreground_lt : ∀ slot index, slots.getD slot none = some index → index < catalog.names.length
  distinct : ∀ slot other index, slots.getD slot none = some index →
    slots.getD other none = some index → slot = other

/-- How many joints each slot has. -/
structure KeypointTensorLayout where
  counts : List Nat
  deriving DecidableEq, Repr

namespace KeypointTensorLayout

/-- The joints of the slots before. -/
def compactOffset (joints : KeypointTensorLayout) (slot : Nat) : Nat := (joints.counts.take slot).sum

def countAt (joints : KeypointTensorLayout) (slot : Nat) : Nat := joints.counts.getD slot 0

end KeypointTensorLayout

namespace ResolvedClassLayout

def foregroundIndex (layout : ResolvedClassLayout F) (slot : Nat) : Option Nat :=
  layout.slots.getD slot none

def requireExecution (layout : ResolvedClassLayout F) (requireSemantic : Bool) : Except String Unit :=
  if layout.scores ≠ .sigmoidLogits then
    .error "RF-DETR execution requires declared sigmoid logits"
  else if requireSemantic = true ∧ layout.semantic = false then
    .error "RF-DETR semantic output requires a bound class layout"
  else .ok ()

/-- The joints a slot should have. -/
def expectedJoints (layout : ResolvedClassLayout F) : Option Nat → Except String Nat
  | some index => do return (← layout.catalog.keypoints index).names.length
  | none => .ok 0

/-- The loop over the slots, from `slot` on. -/
def checkSlots (layout : ResolvedClassLayout F) (joints : KeypointTensorLayout) (slot : Nat) :
    List (Option Nat) → Except String Unit
  | [] => .ok ()
  | entry :: rest => do
      let expected ← layout.expectedJoints entry
      if joints.countAt slot ≠ expected then
        .error ("active-keypoint mask disagrees with named class/joint schema at output slot " ++
          toString slot)
      else layout.checkSlots joints (slot + 1) rest

def requireClassLayout (joints : KeypointTensorLayout) (layout : ResolvedClassLayout F) :
    Except String Unit :=
  if layout.slots.length < joints.counts.length then
    .error "keypoint schema exceeds classifier width"
  else if layout.semantic = false then .ok ()
  else layout.checkSlots joints 0 layout.slots

end ResolvedClassLayout

section Transfer

variable (source : ResolvedClassLayout F) (sourceJoints : KeypointTensorLayout)
  (destination : ResolvedClassLayout F) (destinationJoints : KeypointTensorLayout)

/-- Where the joints of each class of the source start. -/
def sourceOffsets : Nat → Option Nat :=
  (List.range sourceJoints.counts.length).foldl (fun offsets slot =>
    match source.foregroundIndex slot with
    | some index => Function.update offsets index (some (sourceJoints.compactOffset slot))
    | none => offsets) fun _ => none

/-- The rows of one slot of the destination. -/
def transferSlot (slot : Nat) : Except String (List (Nat × Nat)) :=
  match destination.foregroundIndex slot with
  | none => .ok []
  | some index =>
      if destinationJoints.countAt slot = 0 then .ok []
      else
        match source.catalog.resolve (destination.catalog.className index) with
        | none => .ok []
        | some sourceIndex =>
            match sourceOffsets source sourceJoints sourceIndex with
            | none => .ok []
            | some offset => do
                let sourceSchema ← source.catalog.keypoints sourceIndex
                let destinationSchema ← destination.catalog.keypoints index
                let pairs ← sharedKeypointCorrespondence sourceSchema destinationSchema
                return pairs.map fun pair =>
                  (offset + pair.1, destinationJoints.compactOffset slot + pair.2)

def transferSlots : List Nat → Except String (List (Nat × Nat))
  | [] => .ok []
  | slot :: rest => do
      let rows ← transferSlot source sourceJoints destination destinationJoints slot
      let later ← transferSlots rest
      return rows ++ later

def keypointTransferRows : Except String (List (Nat × Nat)) := do
  source.requireExecution true
  destination.requireExecution true
  ResolvedClassLayout.requireClassLayout sourceJoints source
  ResolvedClassLayout.requireClassLayout destinationJoints destination
  transferSlots source sourceJoints destination destinationJoints
    (List.range destinationJoints.counts.length)

end Transfer

/-! ### What an admitted layout says of its slots -/

section Layouts

variable {catalog : ClassCatalog F} {layout : ResolvedClassLayout F}
  {joints : KeypointTensorLayout} {slot other index : Nat}

theorem ClassCatalog.resolve_eq {name : String} :
    catalog.resolve name = some index ↔
      index < catalog.names.length ∧ catalog.className index = name :=
  idxOf?_eq_some_of_nodup catalog.nodup

theorem ClassCatalog.className_inj (hindex : index < catalog.names.length)
    (hother : other < catalog.names.length)
    (heq : catalog.className index = catalog.className other) : index = other := by
  rw [ClassCatalog.className, ClassCatalog.className, getD_of_lt hindex, getD_of_lt hother] at heq
  exact (List.Nodup.getElem_inj_iff catalog.nodup).mp heq

theorem ClassCatalog.schemaAt_valid (catalog : ClassCatalog F) (index : Nat) :
    Valid (catalog.schemaAt index) := by
  refine validateKeypointSchema_ok.mp ?_
  rw [ClassCatalog.schemaAt, List.getD_eq_getElem?_getD]
  cases hschema : catalog.keypointSchemas[index]? with
  | none => rfl
  | some schema => exact catalog.schemas_valid schema (List.mem_of_getElem? hschema)

theorem ClassCatalog.keypoints_of_lt (h : index < catalog.names.length) :
    catalog.keypoints index = .ok (catalog.schemaAt index) := if_neg (Nat.not_le.mpr h)

namespace ResolvedClassLayout

theorem index_lt (h : layout.foregroundIndex slot = some index) :
    index < layout.catalog.names.length := layout.foreground_lt slot index h

theorem slot_unique (h : layout.foregroundIndex slot = some index)
    (hother : layout.foregroundIndex other = some index) : slot = other :=
  layout.distinct slot other index h hother

theorem requireExecution_ok (h : layout.requireExecution true = .ok ()) :
    layout.semantic = true := by
  rw [requireExecution] at h
  split at h
  · cases h
  · split at h
    · cases h
    next hbound => exact Bool.not_eq_false _ ▸ fun hfree => hbound ⟨rfl, hfree⟩

theorem expectedJoints_some (h : index < layout.catalog.names.length) :
    layout.expectedJoints (some index) = .ok (layout.catalog.schemaAt index).names.length := by
  rw [expectedJoints, ClassCatalog.keypoints_of_lt h]
  rfl

/-- Each class that has a slot has as many joints there as its schema. -/
def Fits (layout : ResolvedClassLayout F) (joints : KeypointTensorLayout) : Prop :=
  ∀ slot index, layout.foregroundIndex slot = some index →
    joints.countAt slot = (layout.catalog.schemaAt index).names.length

theorem checkSlots_ok {entries : List (Option Nat)}
    (h : layout.checkSlots joints slot entries = .ok ()) {place expected : Nat}
    {entry : Option Nat} (hentry : entries[place]? = some entry)
    (hexpected : layout.expectedJoints entry = .ok expected) :
    joints.countAt (slot + place) = expected := by
  induction entries generalizing slot place with
  | nil => simp at hentry
  | cons first rest ih =>
      rw [checkSlots] at h
      obtain ⟨count, hcount, h⟩ := bind_eq_ok.mp h
      obtain ⟨hsame, h⟩ := guard_eq_ok.mp h
      cases place with
      | zero =>
          cases hentry
          cases hcount.symm.trans hexpected
          exact not_not.mp hsame
      | succ place =>
          have hlater := ih h hentry
          rwa [Nat.add_assoc, Nat.add_comm 1] at hlater

theorem requireClassLayout_ok (h : requireClassLayout joints layout = .ok ())
    (hsemantic : layout.semantic = true) : layout.Fits joints := by
  rw [requireClassLayout, hsemantic] at h
  obtain ⟨-, h⟩ := guard_eq_ok.mp h
  rw [if_neg Bool.noConfusion] at h
  intro slot index hindex
  have hentry : layout.slots[slot]? = some (some index) := by
    rw [foregroundIndex, List.getD_eq_getElem?_getD] at hindex
    cases hslot : layout.slots[slot]? with
    | none => rw [hslot] at hindex; cases hindex
    | some entry => rw [hslot] at hindex; exact congrArg some hindex
  have hcount := checkSlots_ok h hentry (expectedJoints_some (index_lt hindex))
  rwa [Nat.zero_add] at hcount

end ResolvedClassLayout

namespace KeypointTensorLayout

theorem compactOffset_succ (joints : KeypointTensorLayout) (slot : Nat) :
    joints.compactOffset (slot + 1) = joints.compactOffset slot + joints.countAt slot := by
  rw [compactOffset, compactOffset, countAt, List.take_add_one, List.sum_append,
    List.getD_eq_getElem?_getD]
  cases joints.counts[slot]? with
  | none => rfl
  | some count => exact congrArg _ (List.sum_singleton)

/-- The joints of a slot are before those of a later one. -/
theorem compactOffset_add_le (joints : KeypointTensorLayout) (h : slot < other) :
    joints.compactOffset slot + joints.countAt slot ≤ joints.compactOffset other := by
  rw [← compactOffset_succ]
  exact monotone_nat_of_le_succ (fun place => (Nat.le_add_right _ _).trans_eq
    (joints.compactOffset_succ place).symm) h

/-- A row is of one slot, and of one joint of it. -/
theorem row_unique {joint joint' : Nat} (hjoint : joint < joints.countAt slot)
    (hjoint' : joint' < joints.countAt other)
    (h : joints.compactOffset slot + joint = joints.compactOffset other + joint') :
    slot = other ∧ joint = joint' := by
  rcases lt_trichotomy slot other with hless | rfl | hmore
  · have hbefore := joints.compactOffset_add_le hless
    omega
  · exact ⟨rfl, Nat.add_left_cancel h⟩
  · have hbefore := joints.compactOffset_add_le hmore
    omega

end KeypointTensorLayout

/-- Where the joints of a class start is where those of its slot do. -/
theorem sourceOffsets_eq_some {offset : Nat} :
    sourceOffsets layout joints index = some offset ↔
      ∃ slot < joints.counts.length, layout.foregroundIndex slot = some index ∧
        joints.compactOffset slot = offset := by
  rw [sourceOffsets]
  induction joints.counts.length with
  | zero => exact iff_of_false nofun fun ⟨_, hslot, _⟩ => absurd hslot (Nat.not_lt_zero _)
  | succ count ih =>
      rw [List.range_succ, List.foldl_append, List.foldl_cons, List.foldl_nil]
      have hsame : (∃ slot < count + 1, layout.foregroundIndex slot = some index ∧
          joints.compactOffset slot = offset) ↔
          (layout.foregroundIndex count = some index ∧ joints.compactOffset count = offset) ∨
          ∃ slot < count, layout.foregroundIndex slot = some index ∧
            joints.compactOffset slot = offset := by
        simp only [Nat.lt_succ_iff_lt_or_eq, or_and_right, exists_or, exists_eq_left]
        exact or_comm
      rw [hsame]
      cases hlast : layout.foregroundIndex count with
      | none =>
          dsimp only
          rw [ih]
          exact (or_iff_right fun h => nomatch h.1).symm
      | some last =>
          dsimp only
          cases decEq index last with
          | isTrue heq =>
              subst heq
              rw [Function.update_self, Option.some_inj]
              refine ⟨fun h => .inl ⟨rfl, h⟩, fun h => h.elim And.right ?_⟩
              rintro ⟨slot, hslot, hindex, -⟩
              exact absurd (ResolvedClassLayout.slot_unique hindex hlast) hslot.ne
          | isFalse hne =>
              rw [Function.update_of_ne hne, ih]
              exact (or_iff_right fun h => hne (Option.some_inj.mp h.1).symm).symm

/-! ### Rows by the names they stand for -/

/-- A row of the joints of a slot, with the names of its class and of its joint. -/
def SlotRow (layout : ResolvedClassLayout F) (joints : KeypointTensorLayout) (slot row : Nat)
    (className jointName : String) : Prop :=
  ∃ index joint, layout.foregroundIndex slot = some index ∧
    joint < (layout.catalog.schemaAt index).names.length ∧
    row = joints.compactOffset slot + joint ∧ layout.catalog.className index = className ∧
    (layout.catalog.schemaAt index).nameAt joint = jointName

/-- What a row of the joints of a model stands for. -/
def RowNamed (layout : ResolvedClassLayout F) (joints : KeypointTensorLayout) (row : Nat)
    (className jointName : String) : Prop :=
  ∃ slot < joints.counts.length, SlotRow layout joints slot row className jointName

section Rows

variable {row row' : Nat} {className className' jointName jointName' : String}

theorem SlotRow.lt (h : SlotRow layout joints slot row className jointName)
    (hfits : layout.Fits joints) :
    ∃ joint < joints.countAt slot, row = joints.compactOffset slot + joint := by
  obtain ⟨index, joint, hindex, hjoint, hrow, -⟩ := h
  exact ⟨joint, hfits slot index hindex ▸ hjoint, hrow⟩

theorem RowNamed.names_unique (hfits : layout.Fits joints)
    (h : RowNamed layout joints row className jointName)
    (h' : RowNamed layout joints row className' jointName') :
    className = className' ∧ jointName = jointName' := by
  obtain ⟨slot, -, index, joint, hindex, hjoint, hrow, rfl, rfl⟩ := h
  obtain ⟨slot', -, index', joint', hindex', hjoint', hrow', rfl, rfl⟩ := h'
  obtain ⟨rfl, rfl⟩ := joints.row_unique (hfits slot index hindex ▸ hjoint)
    (hfits slot' index' hindex' ▸ hjoint') (hrow.symm.trans hrow')
  cases hindex.symm.trans hindex'
  exact ⟨rfl, rfl⟩

theorem RowNamed.row_unique (h : RowNamed layout joints row className jointName)
    (h' : RowNamed layout joints row' className jointName) : row = row' := by
  obtain ⟨slot, -, index, joint, hindex, hjoint, rfl, rfl, rfl⟩ := h
  obtain ⟨slot', -, index', joint', hindex', hjoint', rfl, hclass, hname⟩ := h'
  cases ClassCatalog.className_inj (ResolvedClassLayout.index_lt hindex')
    (ResolvedClassLayout.index_lt hindex) hclass
  cases ResolvedClassLayout.slot_unique hindex hindex'
  rw [(layout.catalog.schemaAt_valid index).nameAt_inj hjoint' hjoint hname]

/-- The rows of a class are those from its offset on. -/
theorem rowNamed_iff :
    RowNamed layout joints row className jointName ↔
      ∃ index offset joint, layout.catalog.resolve className = some index ∧
        sourceOffsets layout joints index = some offset ∧
        joint < (layout.catalog.schemaAt index).names.length ∧ row = offset + joint ∧
        (layout.catalog.schemaAt index).nameAt joint = jointName := by
  constructor
  · rintro ⟨slot, hslot, index, joint, hindex, hjoint, hrow, hclass, hname⟩
    exact ⟨index, _, joint,
      ClassCatalog.resolve_eq.mpr ⟨ResolvedClassLayout.index_lt hindex, hclass⟩,
      sourceOffsets_eq_some.mpr ⟨slot, hslot, hindex, rfl⟩, hjoint, hrow, hname⟩
  · rintro ⟨index, offset, joint, hresolve, hoffset, hjoint, hrow, hname⟩
    obtain ⟨slot, hslot, hindex, rfl⟩ := sourceOffsets_eq_some.mp hoffset
    exact ⟨slot, hslot, index, joint, hindex, hjoint, hrow,
      (ClassCatalog.resolve_eq.mp hresolve).2, hname⟩

end Rows

end Layouts

section Transferred

variable {source destination : ResolvedClassLayout F}
  {sourceJoints destinationJoints : KeypointTensorLayout} {slot : Nat} {rows : List (Nat × Nat)}

/-- What is found for a slot of the destination: nothing, or the shared joints of two classes of
one name. -/
theorem transferSlot_cases
    (h : transferSlot source sourceJoints destination destinationJoints slot = .ok rows)
    (hfits : destination.Fits destinationJoints) :
    (rows = [] ∧ ∀ row target className jointName,
      ¬(RowNamed source sourceJoints row className jointName ∧
        SlotRow destination destinationJoints slot target className jointName)) ∨
    ∃ index sourceIndex offset pairs, destination.foregroundIndex slot = some index ∧
      source.catalog.resolve (destination.catalog.className index) = some sourceIndex ∧
      sourceOffsets source sourceJoints sourceIndex = some offset ∧
      sharedKeypointCorrespondence (source.catalog.schemaAt sourceIndex)
        (destination.catalog.schemaAt index) = .ok pairs ∧
      rows = pairs.map fun pair =>
        (offset + pair.1, destinationJoints.compactOffset slot + pair.2) := by
  rw [transferSlot] at h
  cases hindex : destination.foregroundIndex slot with
  | none =>
      rw [hindex] at h
      cases h
      refine .inl ⟨rfl, ?_⟩
      rintro row target className jointName ⟨-, index, joint, hslot, -⟩
      cases hindex.symm.trans hslot
  | some index =>
      rw [hindex] at h
      dsimp only at h
      have hhere : ∀ {target className jointName},
          SlotRow destination destinationJoints slot target className jointName →
          className = destination.catalog.className index ∧
            0 < (destination.catalog.schemaAt index).names.length := by
        rintro target className jointName ⟨index', joint, hslot, hjoint, -, rfl, -⟩
        cases hindex.symm.trans hslot
        exact ⟨rfl, Nat.zero_lt_of_lt hjoint⟩
      split at h
      next hnone =>
        cases h
        refine .inl ⟨rfl, fun row target className jointName hboth => ?_⟩
        have hpos := (hhere hboth.2).2
        rw [← hfits slot index hindex, hnone] at hpos
        exact absurd hpos (Nat.lt_irrefl 0)
      next hsome =>
        cases hresolve : source.catalog.resolve (destination.catalog.className index) with
        | none =>
            rw [hresolve] at h
            cases h
            refine .inl ⟨rfl, fun row target className jointName hboth => ?_⟩
            obtain ⟨sourceIndex, offset, joint, hname, -⟩ := rowNamed_iff.mp hboth.1
            rw [(hhere hboth.2).1, hresolve] at hname
            cases hname
        | some sourceIndex =>
            rw [hresolve] at h
            dsimp only at h
            cases hoffset : sourceOffsets source sourceJoints sourceIndex with
            | none =>
                rw [hoffset] at h
                cases h
                refine .inl ⟨rfl, fun row target className jointName hboth => ?_⟩
                obtain ⟨other, offset, joint, hname, hother, -⟩ := rowNamed_iff.mp hboth.1
                rw [(hhere hboth.2).1, hresolve] at hname
                cases hname
                cases hoffset.symm.trans hother
            | some offset =>
                rw [hoffset] at h
                dsimp only at h
                rw [ClassCatalog.keypoints_of_lt (ClassCatalog.resolve_eq.mp hresolve).1,
                  ClassCatalog.keypoints_of_lt (ResolvedClassLayout.index_lt hindex)] at h
                obtain ⟨-, ⟨⟩, h⟩ := bind_eq_ok.mp h
                obtain ⟨-, ⟨⟩, h⟩ := bind_eq_ok.mp h
                obtain ⟨pairs, hpairs, h⟩ := bind_eq_ok.mp h
                cases h
                exact .inr ⟨index, sourceIndex, offset, pairs, rfl, hresolve, hoffset, hpairs, rfl⟩

/-- The rows of a slot are paired by their names. -/
theorem mem_transferSlot
    (h : transferSlot source sourceJoints destination destinationJoints slot = .ok rows)
    (hfits : destination.Fits destinationJoints) {row target : Nat} :
    (row, target) ∈ rows ↔ ∃ className jointName,
      RowNamed source sourceJoints row className jointName ∧
        SlotRow destination destinationJoints slot target className jointName := by
  obtain ⟨rfl, hnone⟩ | ⟨index, sourceIndex, offset, pairs, hindex, hresolve, hoffset, hpairs, rfl⟩ :=
    transferSlot_cases h hfits
  · refine iff_of_false List.not_mem_nil fun ⟨className, jointName, hboth⟩ => ?_
    exact hnone row target className jointName hboth
  · obtain ⟨hsource, -, -, -, rfl⟩ := jointCorrespondence_ok.mp hpairs
    rw [List.mem_map]
    constructor
    · rintro ⟨⟨joint, joint'⟩, hmem, heq⟩
      cases heq
      have hshared := (mem_pairsOf hsource).mp hmem
      exact ⟨_, _, rowNamed_iff.mpr
        ⟨sourceIndex, offset, joint, hresolve, hoffset, hshared.index_lt, rfl, hshared.name_eq⟩,
        index, joint', hindex, hshared.target_lt, rfl, rfl, rfl⟩
    · rintro ⟨className, jointName, hrow, other, joint', hother, hjoint', rfl, rfl, rfl⟩
      cases hindex.symm.trans hother
      obtain ⟨found, start, joint, hfound, hstart, hjoint, rfl, hname⟩ := rowNamed_iff.mp hrow
      cases hresolve.symm.trans hfound
      cases hoffset.symm.trans hstart
      exact ⟨(joint, joint'), (mem_pairsOf hsource).mpr ⟨hjoint, hjoint', hname⟩, rfl⟩

theorem transferSlot_nodup
    (h : transferSlot source sourceJoints destination destinationJoints slot = .ok rows)
    (hfits : destination.Fits destinationJoints) : (rows.map Prod.snd).Nodup := by
  obtain ⟨rfl, -⟩ | ⟨index, sourceIndex, offset, pairs, -, -, -, hpairs, rfl⟩ :=
    transferSlot_cases h hfits
  · exact List.nodup_nil
  · have hnodup := (sharedKeypointCorrespondence_injective hpairs).2
    have hmoved := hnodup.map (add_right_injective (destinationJoints.compactOffset slot))
    rwa [List.map_map] at hmoved ⊢

theorem transferSlots_cons {rest : List Nat} :
    transferSlots source sourceJoints destination destinationJoints (slot :: rest) = .ok rows ↔
      ∃ first later, transferSlot source sourceJoints destination destinationJoints slot = .ok first ∧
        transferSlots source sourceJoints destination destinationJoints rest = .ok later ∧
        rows = first ++ later := by
  rw [transferSlots, bind_eq_ok]
  constructor
  · rintro ⟨first, hfirst, h⟩
    obtain ⟨later, hlater, h⟩ := bind_eq_ok.mp h
    cases h
    exact ⟨first, later, hfirst, hlater, rfl⟩
  · rintro ⟨first, later, hfirst, hlater, rfl⟩
    exact ⟨first, hfirst, bind_eq_ok.mpr ⟨later, hlater, rfl⟩⟩

theorem mem_transferSlots {slots : List Nat}
    (h : transferSlots source sourceJoints destination destinationJoints slots = .ok rows)
    (hfits : destination.Fits destinationJoints) {row target : Nat} :
    (row, target) ∈ rows ↔ ∃ slot ∈ slots, ∃ className jointName,
      RowNamed source sourceJoints row className jointName ∧
        SlotRow destination destinationJoints slot target className jointName := by
  induction slots generalizing rows with
  | nil =>
      cases h
      exact iff_of_false List.not_mem_nil fun ⟨_, hslot, _⟩ => List.not_mem_nil hslot
  | cons slot rest ih =>
      obtain ⟨first, later, hfirst, hlater, rfl⟩ := transferSlots_cons.mp h
      rw [List.mem_append, mem_transferSlot hfirst hfits, ih hlater, List.exists_mem_cons_iff]

theorem transferSlots_nodup {slots : List Nat}
    (h : transferSlots source sourceJoints destination destinationJoints slots = .ok rows)
    (hfits : destination.Fits destinationJoints) (hslots : slots.Nodup) :
    (rows.map Prod.snd).Nodup := by
  induction slots generalizing rows with
  | nil =>
      cases h
      exact List.nodup_nil
  | cons slot rest ih =>
      obtain ⟨first, later, hfirst, hlater, rfl⟩ := transferSlots_cons.mp h
      obtain ⟨hfresh, hrest⟩ := List.nodup_cons.mp hslots
      rw [List.map_append]
      refine (transferSlot_nodup hfirst hfits).append (ih hlater hrest) ?_
      intro target hhere hthere
      obtain ⟨⟨row, here⟩, hmem, rfl⟩ := List.mem_map.mp hhere
      obtain ⟨⟨row', there⟩, hmem', heq⟩ := List.mem_map.mp hthere
      cases heq
      obtain ⟨_, _, -, hslot⟩ := (mem_transferSlot hfirst hfits).mp hmem
      obtain ⟨slot', hslot', _, _, -, hother⟩ := (mem_transferSlots hlater hfits).mp hmem'
      obtain ⟨joint, hjoint, hrow⟩ := hslot.lt hfits
      obtain ⟨joint', hjoint', hrow'⟩ := hother.lt hfits
      have hsame := (destinationJoints.row_unique hjoint hjoint' (hrow.symm.trans hrow')).1
      exact hfresh (hsame ▸ hslot')

theorem keypointTransferRows_ok
    (h : keypointTransferRows source sourceJoints destination destinationJoints = .ok rows) :
    source.Fits sourceJoints ∧ destination.Fits destinationJoints ∧
      transferSlots source sourceJoints destination destinationJoints
        (List.range destinationJoints.counts.length) = .ok rows := by
  obtain ⟨⟨⟩, hsource, h⟩ := bind_eq_ok.mp h
  obtain ⟨⟨⟩, hdestination, h⟩ := bind_eq_ok.mp h
  obtain ⟨⟨⟩, hfits, h⟩ := bind_eq_ok.mp h
  obtain ⟨⟨⟩, hfits', h⟩ := bind_eq_ok.mp h
  exact ⟨ResolvedClassLayout.requireClassLayout_ok hfits
    (ResolvedClassLayout.requireExecution_ok hsource),
    ResolvedClassLayout.requireClassLayout_ok hfits'
      (ResolvedClassLayout.requireExecution_ok hdestination), h⟩

/-- Rows go over to those of the same class and joint, each to one and each from one. -/
theorem mem_keypointTransferRows
    (h : keypointTransferRows source sourceJoints destination destinationJoints = .ok rows)
    {row target : Nat} :
    (row, target) ∈ rows ↔ ∃ className jointName,
      RowNamed source sourceJoints row className jointName ∧
        RowNamed destination destinationJoints target className jointName := by
  obtain ⟨-, hfits, hslots⟩ := keypointTransferRows_ok h
  rw [mem_transferSlots hslots hfits]
  simp only [RowNamed, List.mem_range]
  constructor
  · rintro ⟨slot, hslot, className, jointName, hrow, htarget⟩
    exact ⟨className, jointName, hrow, slot, hslot, htarget⟩
  · rintro ⟨className, jointName, hrow, slot, hslot, htarget⟩
    exact ⟨slot, hslot, className, jointName, hrow, htarget⟩

theorem keypointTransferRows_injective
    (h : keypointTransferRows source sourceJoints destination destinationJoints = .ok rows) :
    (rows.map Prod.fst).Nodup ∧ (rows.map Prod.snd).Nodup := by
  obtain ⟨hsource, hfits, hslots⟩ := keypointTransferRows_ok h
  have htargets := transferSlots_nodup hslots hfits List.nodup_range
  refine ⟨(List.Nodup.of_map _ htargets).map_on fun pair hpair other hother heq => ?_, htargets⟩
  obtain ⟨row, target⟩ := pair
  obtain ⟨row', target'⟩ := other
  cases heq
  obtain ⟨className, jointName, hrow, htarget⟩ := (mem_keypointTransferRows h).mp hpair
  obtain ⟨className', jointName', hrow', htarget'⟩ := (mem_keypointTransferRows h).mp hother
  obtain ⟨rfl, rfl⟩ := hrow.names_unique hsource hrow'
  rw [htarget.row_unique htarget']

end Transferred

/-- Permuted schemas are valid and tell their permutation, and two permutations compose; the
permutation between two schemas is the one that gives the second from the first, and back it is the
inverse; shared joints are matched one to one from either side; and rows go over, one to one, exactly
to those of the same class and joint. -/
theorem keypoint_correspondences :
    (∀ (schema : ClassKeypointSchema F) (first : List Nat),
      validateKeypointSchema schema = .ok () → Bijective schema.names.length first →
      (∃ moved, permuteKeypointSchema schema first = .ok moved ∧
        validateKeypointSchema moved = .ok () ∧ keypointPermutation schema moved = .ok first) ∧
      ∀ second, Bijective schema.names.length second →
        (permuteKeypointSchema schema first >>= fun moved => permuteKeypointSchema moved second) =
            permuteKeypointSchema schema (composeTargets first second) ∧
          (permuteKeypointSchema schema (composeTargets first second)).toBool = true) ∧
    (∀ schema other : ClassKeypointSchema F,
      validateKeypointSchema schema = .ok () → validateKeypointSchema other = .ok () →
      (∀ permutation, keypointPermutation schema other = .ok permutation ↔
        Bijective schema.names.length permutation ∧
          ∃ moved, permuteKeypointSchema schema permutation = .ok moved ∧
            SameUpToEdges moved other) ∧
      ∀ permutation, keypointPermutation schema other = .ok permutation →
        ∃ back, keypointPermutation other schema = .ok back ∧
          ∀ index < schema.names.length, targetAt back (targetAt permutation index) = index ∧
            targetAt permutation (targetAt back index) = index) ∧
    (∀ (schema other : ClassKeypointSchema F) (pairs : List (Nat × Nat)),
      sharedKeypointCorrespondence schema other = .ok pairs →
      ((pairs.map Prod.fst).Nodup ∧ (pairs.map Prod.snd).Nodup) ∧
        ∃ turned, sharedKeypointCorrespondence other schema = .ok turned ∧
          ∀ index target, (index, target) ∈ pairs ↔ (target, index) ∈ turned) ∧
    ∀ (source destination : ResolvedClassLayout F)
      (sourceJoints destinationJoints : KeypointTensorLayout) (rows : List (Nat × Nat)),
      keypointTransferRows source sourceJoints destination destinationJoints = .ok rows →
      ((rows.map Prod.fst).Nodup ∧ (rows.map Prod.snd).Nodup) ∧
        ∀ row target, (row, target) ∈ rows ↔ ∃ className jointName,
          RowNamed source sourceJoints row className jointName ∧
            RowNamed destination destinationJoints target className jointName := by
  simp only [validateKeypointSchema_ok]
  refine ⟨fun schema first hschema hfirst => ⟨?_, fun second hsecond => ⟨?_, ?_⟩⟩,
    fun schema other hschema hother => ⟨fun permutation => ⟨fun h => ⟨?_, ?_⟩, fun h => ?_⟩,
      fun permutation h => ⟨inverseTargets permutation, ?_, fun index hindex => ⟨?_, ?_⟩⟩⟩,
    fun schema other pairs h => ⟨?_, ?_⟩,
    fun source destination sourceJoints destinationJoints rows h => ⟨?_, fun row target => ?_⟩⟩
  · exact permuteKeypointSchema_found hschema hfirst
  · exact permuteKeypointSchema_twice hschema hfirst hsecond
  · rw [permuteKeypointSchema_ok.mpr ⟨hschema, hfirst.compose hsecond, rfl⟩]
    rfl
  · exact (keypointPermutation_ok.mp h).2.2.bijective
  · exact (keypointPermutation_eq_ok_iff hschema hother).mp h
  · exact (keypointPermutation_eq_ok_iff hschema hother).mpr h.2
  · exact keypointPermutation_inverse h
  · exact (keypointPermutation_ok.mp h).2.2.bijective.target_inverse hindex
  · exact (keypointPermutation_ok.mp h).2.2.bijective.inverse_target hindex
  · exact sharedKeypointCorrespondence_injective h
  · exact sharedKeypointCorrespondence_symm h
  · exact keypointTransferRows_injective h
  · exact mem_keypointTransferRows h

end Mmltk.Catalog
