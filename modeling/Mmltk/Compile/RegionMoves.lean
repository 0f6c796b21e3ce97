import Mmltk.Compile.RegionSpec

namespace Mmltk.Compile

namespace Region

section Moves

variable {blocks blocks' : Blocks} {region : Region} {tiles front back : List BlockRef}
  {bytes : Span} {id size : Nat}

/-! A node is identified by where its extent ends. -/

theorem node_inj {data size data' size' : Nat} (h : node data size = node data' size')
    (hsize : alignment ≤ size) (hsize' : alignment ≤ size') : data + size = data' + size' := by
  have haddress : data + size - alignment = data' + size' - alignment := BlockRef.tail.inj h
  omega

theorem Tiled.node_eq (h : Tiled blocks bytes tiles) {block : BlockRef} {data size : Nat}
    (hblock : block ∈ tiles) (hnode : node data size ∈ tiles) (hsize : alignment ≤ size)
    (hend : data + size = (blocks block).data + (blocks block).size) :
    node data size = block := by
  by_contra hne
  have hfree : (blocks (node data size)).free = true := by
    cases hcase : (blocks (node data size)).free with
    | true => rfl
    | false =>
        obtain ⟨id, hid⟩ := (h.tile _ hnode).owned hcase
        cases hid
  have hlarge := h.alignment_le hnode
  have hplaced := node_inj ((h.tile _ hnode).placed hfree) hsize hlarge
  have hblock_large := h.alignment_le hblock
  have hpos : 0 < alignment := by decide
  rcases h.spans.disjoint hnode hblock hne with hdisjoint | hdisjoint
  · omega
  · omega

theorem Tiled.lease_not_free (h : Tiled blocks bytes tiles) (hid : .lease id ∈ tiles) :
    (blocks (.lease id)).free = false := by
  cases hcase : (blocks (.lease id)).free with
  | false => rfl
  | true => cases (h.tile _ hid).placed hcase

/-! Sums over tiles. -/

theorem freeTotal_append :
    freeTotal blocks (front ++ back) = freeTotal blocks front + freeTotal blocks back := by
  rw [freeTotal, List.map_append, List.sum_append]
  rfl

theorem freeTotal_singleton (blocks : Blocks) (block : BlockRef) :
    freeTotal blocks [block] = if (blocks block).free then (blocks block).size else 0 := rfl

theorem freeTotal_pair (blocks : Blocks) (left right : BlockRef) :
    freeTotal blocks [left, right] = (if (blocks left).free then (blocks left).size else 0) +
      if (blocks right).free then (blocks right).size else 0 := by
  simp [freeTotal]

theorem freeTotal_congr
    (h : ∀ block ∈ tiles, (blocks' block).size = (blocks block).size ∧
      (blocks' block).free = (blocks block).free) :
    freeTotal blocks' tiles = freeTotal blocks tiles := by
  unfold freeTotal
  congr 1
  apply List.map_congr_left
  intro block hblock
  rw [(h block hblock).1, (h block hblock).2]

/-! What a change of one region leaves alone, and what it does to the owned blocks. -/

structure Reshaped (blocks : Blocks) (region : Region) (tiles : List BlockRef) (id : Nat)
    (after : Blocks × Region) (tiles' : List BlockRef) : Prop where
  formed : Formed after.1 after.2 tiles'
  leases : ∀ other, other ≠ id → (BlockRef.lease other ∈ tiles' ↔ BlockRef.lease other ∈ tiles)
  kept : ∀ other, other ≠ id → BlockRef.lease other ∈ tiles →
    (after.1 (.lease other)).data = (blocks (.lease other)).data ∧
      (after.1 (.lease other)).size = (blocks (.lease other)).size
  frame : ∀ block, block ∉ tiles → block ∉ tiles' → after.1 block = blocks block
  bytes : after.2.bytes = region.bytes

theorem frees_exchange {middle middle' : List BlockRef} (hnodup : (front ++ middle ++ back).Nodup)
    (houtside : ∀ block, block ∈ front ∨ block ∈ back → Kept (blocks block) (blocks' block))
    (block : BlockRef) :
    block ∈ front ++ middle' ++ back ∧ (blocks' block).free = true ↔
      ((block ∈ front ++ middle ++ back ∧ (blocks block).free = true) ∧ block ∉ middle) ∨
        (block ∈ middle' ∧ (blocks' block).free = true) := by
  have hapart : block ∈ front ∨ block ∈ back → block ∉ middle := fun hside hmid =>
    hside.elim (middle_out hnodup hmid).1 (middle_out hnodup hmid).2
  constructor
  · rintro ⟨hin, hfree⟩
    by_cases hside : block ∈ front ∨ block ∈ back
    · refine .inl ⟨⟨?_, (houtside block hside).2.2 ▸ hfree⟩, hapart hside⟩
      rcases hside with hside | hside
      · simp [hside]
      · simp [hside]
    · rw [not_or] at hside
      exact .inr ⟨by simpa [hside.1, hside.2] using hin, hfree⟩
  · rintro (⟨⟨hin, hfree⟩, hmid⟩ | ⟨hin, hfree⟩)
    · have hside : block ∈ front ∨ block ∈ back := by simpa [hmid] using hin
      refine ⟨?_, (houtside block hside).2.2.trans hfree⟩
      rcases hside with hside | hside
      · simp [hside]
      · simp [hside]
    · exact ⟨by simp [hin], hfree⟩

theorem Reshaped.of_exchange {middle middle' : List BlockRef} {unlinked : Blocks}
    {after : Blocks × Region} (h : Formed blocks region (front ++ middle ++ back))
    (hsame : ∀ block, Relinked (blocks block) (unlinked block))
    (hexchange : Exchanged unlinked after.1 front middle middle' back)
    (hbinned : Binned after.1 after.2 fun block =>
      ((block ∈ front ++ middle ++ back ∧ (blocks block).free = true) ∧ block ∉ middle) ∨
        (block ∈ middle' ∧ (after.1 block).free = true))
    (hframe : ∀ block, block ∉ front ++ middle ++ back → block ∉ middle' →
      after.1 block = blocks block)
    (htotal : after.2.freeBytes + freeTotal blocks middle =
      region.freeBytes + freeTotal after.1 middle')
    (hbytes : after.2.bytes = region.bytes)
    (hleases : ∀ other, other ≠ id → BlockRef.lease other ∉ middle ∧ BlockRef.lease other ∉ middle') :
    Reshaped blocks region (front ++ middle ++ back) id after (front ++ middle' ++ back) := by
  have hkept : ∀ block, block ∈ front ∨ block ∈ back → Kept (blocks block) (after.1 block) := by
    intro block hin
    obtain ⟨⟨hdata, hsize, hfree⟩, -⟩ := hexchange.outside block hin
    exact ⟨hdata.trans (hsame block).data, hsize.trans (hsame block).size,
      hfree.trans (hsame block).free⟩
  refine ⟨⟨?_, ?_, ?_, hbytes ▸ h.bounded⟩, ?_, ?_, ?_, hbytes⟩
  · exact hbytes ▸ hexchange.tiled (h.tiled.congr fun block _ => hsame block)
  · apply hbinned.congr rfl rfl (frees_exchange h.tiled.nodup hkept)
    exact fun _ _ => ⟨rfl, rfl, rfl⟩
  · have hfront : freeTotal after.1 front = freeTotal blocks front :=
      freeTotal_congr fun block hin => (hkept block (.inl hin)).2
    have hback : freeTotal after.1 back = freeTotal blocks back :=
      freeTotal_congr fun block hin => (hkept block (.inr hin)).2
    have hold := h.total
    simp only [freeTotal_append] at hold ⊢
    omega
  · intro other hother
    obtain ⟨hold, hnew⟩ := hleases other hother
    simp [hold, hnew]
  · intro other hother hin
    have hside : BlockRef.lease other ∈ front ∨ BlockRef.lease other ∈ back := by
      simpa [(hleases other hother).1] using hin
    exact ⟨(hkept _ hside).1, (hkept _ hside).2.1⟩
  · exact fun block hold hnew => hframe block hold fun hin => hnew (by simp [hin])

theorem own_self (blocks : Blocks) {free owned : BlockRef} (size : Nat)
    (hprevious : (blocks free).previous ≠ some owned) (hnext : (blocks free).next ≠ some owned) :
    own blocks free owned size owned =
      { data := (blocks free).data, size := size, previous := (blocks free).previous,
        next := (blocks free).next, freePrevious := none, freeNext := none, free := false } := by
  rw [own]
  simp only [assign_apply, if_pos, if_neg hprevious, if_neg hnext, Function.update_self]

theorem own_other (blocks : Blocks) {free owned block : BlockRef} (size : Nat)
    (hblock : block ≠ owned) :
    own blocks free owned size block =
      { blocks block with
        next := if (blocks free).previous = some block then some owned else (blocks block).next,
        previous := if (blocks free).next = some block then some owned
          else (blocks block).previous } := by
  rw [own]
  simp only [assign_apply, Option.some.injEq, if_neg hblock.symm, Function.update_of_ne hblock]
  split <;> split <;> rfl

/-! What the links written on the way leave alone. -/

theorem own_untouched {free owned block : BlockRef} (hblock : block ≠ owned)
    (hprevious : (blocks free).previous ≠ some block) (hnext : (blocks free).next ≠ some block) :
    own blocks free owned size block = blocks block := by
  rw [own_other blocks size hblock, if_neg hprevious, if_neg hnext]

theorem insert_untouched {data : Nat} {previous next : Option BlockRef} {block : BlockRef}
    (hblock : block ≠ node data size) (hprevious : previous ≠ some block)
    (hnext : next ≠ some block) (hhead : region.bins (bin size) ≠ some block) :
    (insert blocks region data size previous next).1 block = blocks block := by
  rw [insert_other hblock, if_neg hprevious, if_neg hnext, if_neg hhead]

end Moves

end Region

end Mmltk.Compile
