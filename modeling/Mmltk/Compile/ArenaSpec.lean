import Mathlib.Algebra.BigOperators.Group.List.Basic
import Mathlib.Algebra.GroupWithZero.Nat
import Mmltk.Compile.Arena

namespace Mmltk.Compile

open Mmltk.Foundation

theorem assign_apply (blocks : Blocks) (node : Option BlockRef)
    (change : ArenaBlock → ArenaBlock) (block : BlockRef) :
    assign blocks node change block =
      if node = some block then change (blocks block) else blocks block := by
  cases node with
  | none => simp [assign]
  | some target =>
      by_cases h : target = block
      · subst h
        simp [assign]
      · simp [assign, h, Ne.symm h]

namespace Region

/-! What one region's blocks look like in address order. -/

def Spans (blocks : Blocks) : Nat → List BlockRef → Nat → Prop
  | start, [], stop => start = stop
  | start, block :: rest, stop =>
      (blocks block).data = start ∧ Spans blocks (start + (blocks block).size) rest stop

abbrev Kept (before after : ArenaBlock) : Prop :=
  after.data = before.data ∧ after.size = before.size ∧ after.free = before.free

/-- The node of an unused block lies in its extent, that of an owned one in its lease. -/
structure Tile (block : BlockRef) (value : ArenaBlock) : Prop where
  pos : 0 < value.size
  aligned : alignment ∣ value.size
  placed : value.free = true → block = node value.data value.size
  owned : value.free = false → ∃ id, block = .lease id

theorem Tile.congr {block : BlockRef} {value value' : ArenaBlock} (h : Tile block value)
    (hkept : Kept value value') : Tile block value' := by
  obtain ⟨hdata, hsize, hfree⟩ := hkept
  refine ⟨hsize ▸ h.pos, hsize ▸ h.aligned, ?_, ?_⟩
  · rw [hdata, hsize, hfree]
    exact h.placed
  · rw [hfree]
    exact h.owned

structure Tiled (blocks : Blocks) (bytes : Span) (tiles : List BlockRef) : Prop where
  linked : Linked (fun block => (blocks block).previous) (fun block => (blocks block).next)
    none tiles none
  spans : Spans blocks bytes.data tiles bytes.stop
  tile : ∀ block ∈ tiles, Tile block (blocks block)
  apart : tiles.IsChain fun left right =>
    ¬ ((blocks left).free = true ∧ (blocks right).free = true)

/-! The bins over a set of unused blocks. -/

structure Listed (blocks : Blocks) (region : Region) (frees : BlockRef → Prop) (index : Nat)
    (list : List BlockRef) : Prop where
  linked : Linked (fun block => (blocks block).freePrevious)
    (fun block => (blocks block).freeNext) none list none
  head : region.bins index = list.head?
  nodup : list.Nodup
  mem : ∀ block, block ∈ list ↔ frees block ∧ bin (blocks block).size = index
  bit : index < 64 → (region.nonempty.getLsbD index = true ↔ list ≠ [])

def Binned (blocks : Blocks) (region : Region) (frees : BlockRef → Prop) : Prop :=
  ∀ index, ∃ list, Listed blocks region frees index list

def freeTotal (blocks : Blocks) (tiles : List BlockRef) : Nat :=
  (tiles.map fun block => if (blocks block).free then (blocks block).size else 0).sum

structure Formed (blocks : Blocks) (region : Region) (tiles : List BlockRef) : Prop where
  tiled : Tiled blocks region.bytes tiles
  binned : Binned blocks region fun block => block ∈ tiles ∧ (blocks block).free = true
  total : region.freeBytes = freeTotal blocks tiles
  bounded : region.bytes.size < 2 ^ 64

/-! Only the links between unused blocks differ. -/

structure Relinked (before after : ArenaBlock) : Prop where
  data : after.data = before.data
  size : after.size = before.size
  previous : after.previous = before.previous
  next : after.next = before.next
  free : after.free = before.free

theorem Relinked.rfl {block : ArenaBlock} : Relinked block block :=
  ⟨Eq.refl _, Eq.refl _, Eq.refl _, Eq.refl _, Eq.refl _⟩

theorem Relinked.kept {before after : ArenaBlock} (h : Relinked before after) : Kept before after :=
  ⟨h.data, h.size, h.free⟩

theorem Listed.congr {blocks blocks' : Blocks} {region region' : Region}
    {frees frees' : BlockRef → Prop} {index : Nat} {list : List BlockRef}
    (h : Listed blocks region frees index list) (hbins : region'.bins index = region.bins index)
    (hbit : index < 64 → region'.nonempty.getLsbD index = region.nonempty.getLsbD index)
    (hfrees : ∀ block, frees' block ∧ bin (blocks' block).size = index ↔
      frees block ∧ bin (blocks block).size = index)
    (hlinks : ∀ block ∈ list, (blocks' block).freePrevious = (blocks block).freePrevious ∧
      (blocks' block).freeNext = (blocks block).freeNext) :
    Listed blocks' region' frees' index list where
  linked := h.linked.congr (fun block hin => (hlinks block hin).1) fun block hin => (hlinks block hin).2
  head := hbins.trans h.head
  nodup := h.nodup
  mem block := (h.mem block).trans (hfrees block).symm
  bit hindex := by
    rw [hbit hindex]
    exact h.bit hindex

theorem Binned.frees_of_head {blocks : Blocks} {region : Region} {frees : BlockRef → Prop}
    (h : Binned blocks region frees) {index : Nat} {block : BlockRef}
    (hhead : region.bins index = some block) : frees block ∧ bin (blocks block).size = index := by
  obtain ⟨list, hlist⟩ := h index
  rw [hlist.head] at hhead
  exact (hlist.mem block).mp (List.mem_of_mem_head? hhead)

theorem Binned.congr {blocks blocks' : Blocks} {region region' : Region}
    {frees frees' : BlockRef → Prop} (h : Binned blocks region frees)
    (hbins : region'.bins = region.bins) (hnonempty : region'.nonempty = region.nonempty)
    (hfrees : ∀ block, frees' block ↔ frees block)
    (hblocks : ∀ block, frees block → (blocks' block).freePrevious = (blocks block).freePrevious ∧
      (blocks' block).freeNext = (blocks block).freeNext ∧
      (blocks' block).size = (blocks block).size) :
    Binned blocks' region' frees' := by
  intro index
  obtain ⟨list, hlist⟩ := h index
  refine ⟨list, hlist.congr (by rw [hbins]) (fun _ => by rw [hnonempty]) ?_ ?_⟩
  · intro block
    rw [hfrees]
    apply and_congr_right
    intro hfree
    rw [(hblocks block hfree).2.2]
  · intro block hin
    have hsame := hblocks block ((hlist.mem block).mp hin).1
    exact ⟨hsame.1, hsame.2.1⟩

/-! `unlink` -/

section Unlink

variable {blocks : Blocks} {region : Region} {frees : BlockRef → Prop} {target : BlockRef}

theorem unlink_block (blocks : Blocks) (region : Region) (target block : BlockRef) :
    (unlink blocks region target).1 block =
      { blocks block with
        freeNext := if (blocks target).freePrevious = some block then (blocks target).freeNext
          else (blocks block).freeNext,
        freePrevious := if (blocks target).freeNext = some block then (blocks target).freePrevious
          else (blocks block).freePrevious } := by
  have hblocks : (unlink blocks region target).1 =
      assign (assign blocks (blocks target).freePrevious
        fun node => { node with freeNext := (blocks target).freeNext }) (blocks target).freeNext
        fun node => { node with freePrevious := (blocks target).freePrevious } := rfl
  rw [hblocks, assign_apply, assign_apply]
  split <;> split <;> rfl

theorem unlink_relinked (blocks : Blocks) (region : Region) (target block : BlockRef) :
    Relinked (blocks block) ((unlink blocks region target).1 block) := by
  rw [unlink_block]
  exact ⟨rfl, rfl, rfl, rfl, rfl⟩

/-- The neighbours in the bin are unused blocks of the same class. -/
theorem Binned.neighbours (h : Binned blocks region frees) (htarget : frees target) :
    ∃ front back, Listed blocks region frees (bin (blocks target).size) (front ++ target :: back) ∧
      (blocks target).freePrevious = front.getLast? ∧ (blocks target).freeNext = back.head? ∧
      ∀ block, (blocks target).freePrevious = some block ∨ (blocks target).freeNext = some block →
        frees block ∧ bin (blocks block).size = bin (blocks target).size := by
  obtain ⟨list, hlist⟩ := h (bin (blocks target).size)
  obtain ⟨front, back, rfl⟩ := List.append_of_mem ((hlist.mem target).mpr ⟨htarget, rfl⟩)
  obtain ⟨hprevious, hnext⟩ := hlist.linked.middle
  rw [Option.or_none] at hprevious hnext
  refine ⟨front, back, hlist, hprevious, hnext, ?_⟩
  intro block hblock
  rw [hprevious, hnext] at hblock
  apply (hlist.mem block).mp
  rcases hblock with hfront | hback
  · exact List.mem_append_left _ (List.mem_of_getLast? hfront)
  · exact List.mem_append_right _ (List.mem_cons_of_mem _ (List.mem_of_mem_head? hback))

theorem unlink_frame (h : Binned blocks region frees) (htarget : frees target)
    {block : BlockRef} (hblock : ¬ frees block) :
    (unlink blocks region target).1 block = blocks block := by
  obtain ⟨-, -, -, -, -, hsame⟩ := h.neighbours htarget
  rw [unlink_block, if_neg fun heq => hblock (hsame block (.inl heq)).1,
    if_neg fun heq => hblock (hsame block (.inr heq)).1]

theorem one_bit {index other : Nat} (h : other < 64) :
    (1#64 <<< index).getLsbD other = decide (other = index) := by
  rw [BitVec.getLsbD_shiftLeft, BitVec.getLsbD_one]
  grind

theorem unlink_binned (h : Binned blocks region frees) (htarget : frees target) :
    Binned (unlink blocks region target).1 (unlink blocks region target).2
      fun block => frees block ∧ block ≠ target := by
  obtain ⟨front, back, hlist, hprevious, hnext, hsame⟩ := h.neighbours htarget
  have hbins : (unlink blocks region target).2.bins =
      Function.update region.bins (bin (blocks target).size) (front ++ back).head? := by
    funext index
    show (if (blocks target).freePrevious.isSome then region.bins
      else Function.update region.bins _ (blocks target).freeNext) index = _
    rw [hprevious, hnext]
    cases front with
    | nil => rfl
    | cons first rest =>
        have hsome : (first :: rest).getLast?.isSome = true := by simp
        rw [if_pos hsome]
        by_cases heq : index = bin (blocks target).size
        · rw [heq, Function.update_self, hlist.head]
          rfl
        · rw [Function.update_of_ne heq]
  have hword : (unlink blocks region target).2.nonempty =
      if (unlink blocks region target).2.bins (bin (blocks target).size) = none then
        region.nonempty &&& ~~~(1#64 <<< bin (blocks target).size) else region.nonempty := rfl
  rw [hbins, Function.update_self] at hword
  intro index
  by_cases heq : index = bin (blocks target).size
  · obtain ⟨hfront, hrest, hapart⟩ := List.nodup_append.mp hlist.nodup
    obtain ⟨htarget_back, hback⟩ := List.nodup_cons.mp hrest
    rw [heq]
    refine ⟨front ++ back, ?_, ?_, ?_, ?_, ?_⟩
    · apply hlist.linked.remove hlist.nodup
      · intro other hother
        rw [unlink_block]
      · intro other hother
        rw [unlink_block]
    · rw [hbins, Function.update_self]
    · exact hlist.nodup.sublist (List.Sublist.append_left (List.sublist_cons_self _ _) _)
    · intro block
      rw [(unlink_relinked blocks region target block).size, and_right_comm, ← hlist.mem block]
      constructor
      · intro hin
        refine ⟨?_, ?_⟩
        · exact List.mem_append.mpr ((List.mem_append.mp hin).imp_right (List.mem_cons_of_mem _))
        · rintro rfl
          rcases List.mem_append.mp hin with hin | hin
          · exact hapart _ hin _ List.mem_cons_self rfl
          · exact htarget_back hin
      · rintro ⟨hin, hne⟩
        simpa [hne] using hin
    · intro hindex
      rw [hword]
      split
      · next hempty =>
          rw [BitVec.getLsbD_and, BitVec.getLsbD_not, one_bit hindex, List.head?_eq_none_iff.mp hempty]
          simp
      · next hsome =>
          have hold := (hlist.bit hindex).mpr (by simp)
          exact ⟨fun _ hnil => hsome (by rw [hnil]; rfl), fun _ => hold⟩
  · -- Neither the target nor its neighbours are in another bin.
    obtain ⟨list, hother⟩ := h index
    refine ⟨list, hother.congr ?_ ?_ ?_ ?_⟩
    · rw [hbins, Function.update_of_ne heq]
    · intro hindex
      rw [hword]
      split
      · rw [BitVec.getLsbD_and, BitVec.getLsbD_not, one_bit hindex]
        simp [hindex, heq]
      · rfl
    · intro block
      rw [(unlink_relinked blocks region target block).size, and_assoc]
      apply and_congr_right
      intro _
      apply and_iff_right_of_imp
      rintro hbin rfl
      exact heq hbin.symm
    · intro block hin
      have hbin := ((hother.mem block).mp hin).2
      rw [unlink_block]
      exact ⟨if_neg fun hnear => heq (hbin.symm.trans (hsame block (.inr hnear)).2),
        if_neg fun hnear => heq (hbin.symm.trans (hsame block (.inl hnear)).2)⟩

end Unlink

/-! `insert` -/

section Insert

variable {blocks : Blocks} {region : Region} {frees : BlockRef → Prop} {data size : Nat}
  {previous next : Option BlockRef}

/-- The node as it is written. -/
abbrev unused (region : Region) (data size : Nat) (previous next : Option BlockRef) : ArenaBlock :=
  { data := data, size := size, previous := previous, next := next,
    freePrevious := none, freeNext := region.bins (bin size), free := true }

theorem insert_block (blocks : Blocks) (region : Region) (data size : Nat)
    (previous next : Option BlockRef) (block : BlockRef) :
    (insert blocks region data size previous next).1 block =
      (fun base : ArenaBlock =>
        { base with
          next := if previous = some block then some (node data size) else base.next,
          previous := if next = some block then some (node data size) else base.previous,
          freePrevious := if region.bins (bin size) = some block then some (node data size)
            else base.freePrevious })
        (if block = node data size then unused region data size previous next
        else blocks block) := by
  have hblocks : (insert blocks region data size previous next).1 =
      assign (assign (assign (Function.update blocks (node data size)
        (unused region data size previous next))
        previous fun block => { block with next := some (node data size) })
        next fun block => { block with previous := some (node data size) })
        (region.bins (bin size)) fun block =>
          { block with freePrevious := some (node data size) } := rfl
  rw [hblocks, assign_apply, assign_apply, assign_apply, Function.update_apply]
  split <;> split <;> split <;> rfl

variable (blocks) in
theorem insert_self (hprevious : previous ≠ some (node data size))
    (hnext : next ≠ some (node data size)) (hhead : region.bins (bin size) ≠ some (node data size)) :
    (insert blocks region data size previous next).1 (node data size) =
      unused region data size previous next := by
  rw [insert_block]
  simp only [if_neg hprevious, if_neg hnext, if_neg hhead, if_pos]

theorem insert_other {block : BlockRef} (hblock : block ≠ node data size) :
    (insert blocks region data size previous next).1 block =
      { blocks block with
        next := if previous = some block then some (node data size) else (blocks block).next,
        previous := if next = some block then some (node data size) else (blocks block).previous,
        freePrevious := if region.bins (bin size) = some block then some (node data size)
          else (blocks block).freePrevious } := by
  rw [insert_block, if_neg hblock]

theorem insert_binned (h : Binned blocks region frees) (hnew : ¬ frees (node data size))
    (hprevious : previous ≠ some (node data size)) (hnext : next ≠ some (node data size)) :
    Binned (insert blocks region data size previous next).1
      (insert blocks region data size previous next).2
      fun block => frees block ∨ block = node data size := by
  have hhead : region.bins (bin size) ≠ some (node data size) :=
    fun heq => hnew (h.frees_of_head heq).1
  have hself := insert_self blocks hprevious hnext hhead
  have hbins : (insert blocks region data size previous next).2.bins =
      Function.update region.bins (bin size) (some (node data size)) := rfl
  have hword : (insert blocks region data size previous next).2.nonempty =
      region.nonempty ||| (1#64 <<< bin size) := rfl
  intro index
  obtain ⟨list, hlist⟩ := h index
  have hne : ∀ block ∈ list, block ≠ node data size := by
    rintro block hin rfl
    exact hnew ((hlist.mem _).mp hin).1
  have hmem : ∀ block, block ≠ node data size →
      (block ∈ list ↔ (frees block ∨ block = node data size) ∧
        bin ((insert blocks region data size previous next).1 block).size = index) := by
    intro block hblock
    rw [insert_other hblock, hlist.mem, or_iff_left hblock]
  by_cases heq : index = bin size
  · subst heq
    refine ⟨node data size :: list, ?_, ?_, ?_, ?_, ?_⟩
    · apply hlist.linked.push hlist.nodup
      · rw [hself]
      · rw [hself, unused, hlist.head]
      · intro other hother
        rw [insert_other (hne other hother), hlist.head]
      · intro other hother
        rw [insert_other (hne other hother)]
    · rw [hbins, Function.update_self]
      rfl
    · exact List.nodup_cons.mpr ⟨fun hin => hne _ hin rfl, hlist.nodup⟩
    · intro block
      rw [List.mem_cons]
      by_cases hblock : block = node data size
      · rw [hblock, hself]
        simp
      · rw [or_iff_right hblock, hmem block hblock]
    · intro hindex
      rw [hword, BitVec.getLsbD_or, one_bit hindex]
      simp
  · refine ⟨list, hlist.congr ?_ ?_ ?_ ?_⟩
    · rw [hbins, Function.update_of_ne heq]
    · intro hindex
      rw [hword, BitVec.getLsbD_or, one_bit hindex]
      simp [heq]
    · intro block
      by_cases hblock : block = node data size
      · rw [hblock, hself]
        exact iff_of_false (fun hboth => heq hboth.2.symm) fun hboth => hnew hboth.1
      · rw [← hmem block hblock, hlist.mem]
    · intro block hin
      have hbin := ((hlist.mem block).mp hin).2
      rw [insert_other (hne block hin)]
      exact ⟨if_neg fun hnear => heq (hbin.symm.trans (h.frees_of_head hnear).2), rfl⟩

end Insert

end Region

end Mmltk.Compile
