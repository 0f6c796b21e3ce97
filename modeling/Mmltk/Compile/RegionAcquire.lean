import Mmltk.Compile.RegionMoves

namespace Mmltk.Compile

namespace Region

section Acquire

variable {blocks : Blocks} {region : Region} {tiles front back : List BlockRef} {bytes : Span}
  {id size : Nat} {free : BlockRef}

/-! The extent of `free` handed to a lease, whole or with a node for what remains. -/

theorem own_held (size : Nat) (h : Tiled blocks bytes (front ++ [free] ++ back))
    (hid : .lease id ∉ front ++ [free] ++ back) :
    own blocks free (.lease id) size (.lease id) =
      { data := (blocks free).data, size := size, previous := front.getLast?, next := back.head?,
        freePrevious := none, freeNext := none, free := false } := by
  obtain ⟨hprevious, hnext⟩ := h.neighbours
  rw [own_self blocks size, hprevious, hnext]
  · exact hprevious ▸ (edges_ne hid).1
  · exact hnext ▸ (edges_ne hid).2

theorem own_exchanged (h : Tiled blocks bytes (front ++ [free] ++ back))
    (hid : .lease id ∉ front ++ [free] ++ back) (hfree : (blocks free).free = true)
    (hsize : (blocks free).size = size) :
    Exchanged blocks (own blocks free (.lease id) size) front [free] [.lease id] back := by
  obtain ⟨hprevious, hnext⟩ := h.neighbours
  obtain ⟨hleft, hright⟩ := h.edges hfree
  have htile := h.tile free (by simp)
  have hself := own_held size h hid
  refine ⟨?_, ?_, List.cons_ne_nil _ _, ?_, ?_, List.isChain_singleton _, hleft, hright⟩
  · intro block hin
    have hne : block ≠ .lease id := by
      rintro rfl
      exact hid (by simpa using hin.imp_right .inr)
    rw [own_other blocks size hne, hprevious, hnext]
    exact ⟨⟨rfl, rfl, rfl⟩, rfl, rfl⟩
  · exact ⟨congrArg ArenaBlock.previous hself, congrArg ArenaBlock.next hself, trivial⟩
  · rintro start stop ⟨rfl, rfl⟩
    exact ⟨by rw [hself], by rw [hself, hsize]; rfl⟩
  · intro block hin
    rw [List.mem_singleton.mp hin, hself]
    exact ⟨hsize ▸ htile.pos, hsize ▸ htile.aligned, nofun, fun _ => ⟨id, rfl⟩⟩

/-- What remains ends where the extent ended. -/
theorem node_remains {data whole : Nat} (hplaced : free = node data whole) (hsize : size ≤ whole) :
    node (data + size) (whole - size) = free := by
  rw [hplaced, node, node, Nat.add_assoc, Nat.add_sub_cancel' hsize]

theorem split_exchanged (h : Tiled blocks bytes (front ++ [free] ++ back))
    (hid : .lease id ∉ front ++ [free] ++ back) (hfree : (blocks free).free = true)
    (hpos : 0 < size) (haligned : alignment ∣ size) (hsize : size < (blocks free).size)
    (hhead : region.bins (bin ((blocks free).size - size)) ≠ some free) {after : Blocks}
    (hafter : after = (insert (own blocks free (.lease id) size) region ((blocks free).data + size)
      ((blocks free).size - size) (some (.lease id)) (blocks free).next).1) :
    Exchanged blocks after front [free] [.lease id, free] back ∧
      Kept { blocks free with size := size, free := false } (after (.lease id)) ∧
      (after free).free = true ∧ (after free).size = (blocks free).size - size := by
  obtain ⟨hprevious, hnext⟩ := h.neighbours
  obtain ⟨hleft, hright⟩ := h.edges hfree
  have htile := h.tile free (by simp)
  have hnode := node_remains (htile.placed hfree) (Nat.le_of_lt hsize)
  have hne : free ≠ .lease id := by
    rintro rfl
    exact hid (by simp)
  have hout := middle_out h.nodup (List.mem_singleton_self free)
  have hnot_next : back.head? ≠ some free := fun heq => hout.2 (List.mem_of_mem_head? heq)
  have hremains := @insert_self (own blocks free (.lease id) size) region
    ((blocks free).data + size) ((blocks free).size - size) (some (.lease id)) (blocks free).next
    (by rw [hnode]; exact fun heq => hne (Option.some.inj heq).symm) (by rwa [hnode, hnext])
    (by rwa [hnode])
  have hother : ∀ block, block ≠ free → _ := fun block hblock =>
    @insert_other (own blocks free (.lease id) size) region ((blocks free).data + size)
      ((blocks free).size - size) (some (.lease id)) (blocks free).next block (by rwa [hnode])
  rw [← hafter, hnode] at hremains
  rw [← hafter] at hother
  have hheld := hother (.lease id) hne.symm
  rw [own_held size h hid, if_pos rfl, hnext, if_neg (edges_ne hid).2,
    hnode] at hheld
  rw [hnext] at hremains
  refine ⟨⟨?_, ?_, List.cons_ne_nil _ _, ?_, ?_, ?_, hleft, hright⟩, ?_, ?_, ?_⟩
  · intro block hin
    have hlease : block ≠ .lease id := by
      rintro rfl
      exact hid (by simpa using hin.imp_right .inr)
    have hblock : block ≠ free := by
      rintro rfl
      exact hin.elim hout.1 hout.2
    rw [hother block hblock, own_other blocks size hlease, hprevious, hnext, hnode,
      if_neg fun heq => hlease (Option.some.inj heq).symm]
    refine ⟨⟨rfl, rfl, rfl⟩, rfl, ?_⟩
    by_cases hcase : back.head? = some block
    · simp only [if_pos hcase]
      rfl
    · simp only [if_neg hcase]
  · exact ⟨congrArg ArenaBlock.previous hheld, congrArg ArenaBlock.next hheld,
      congrArg ArenaBlock.previous hremains, congrArg ArenaBlock.next hremains, trivial⟩
  · rintro start stop ⟨rfl, rfl⟩
    refine ⟨by rw [hheld], ?_⟩
    rw [hheld]
    refine ⟨by rw [hremains], ?_⟩
    rw [hremains]
    show (blocks free).data + size + ((blocks free).size - size) = _
    omega
  · intro block hin
    rcases List.mem_cons.mp hin with rfl | hin
    · rw [hheld]
      exact ⟨hpos, haligned, nofun, fun _ => ⟨id, rfl⟩⟩
    · rw [List.mem_singleton.mp hin, hremains]
      exact ⟨Nat.sub_pos_of_lt hsize, Nat.dvd_sub htile.aligned haligned, fun _ => hnode.symm, nofun⟩
  · rw [List.isChain_pair, hheld]
    simp
  · rw [hheld]
    exact ⟨rfl, rfl, rfl⟩
  · rw [hremains]
  · rw [hremains]

section Unlinked

variable {unlinked : Blocks} {region' : Region}

theorem acquire_exact {owned : BlockRef} (hunlink : unlink blocks region free = (unlinked, region'))
    (hsize : (unlinked free).size = size) :
    acquire blocks region free owned size =
      (own unlinked free owned size, { region' with freeBytes := region'.freeBytes - size }) := by
  have hremaining : (unlinked free).size - size = 0 := by rw [hsize, Nat.sub_self]
  rw [acquire, hunlink]
  simp only [if_pos hremaining]

theorem acquire_split (hunlink : unlink blocks region free = (unlinked, region'))
    (hsize : size < (unlinked free).size) :
    acquire blocks region free (.lease id) size =
      let inserted := insert (own unlinked free (.lease id) size) region'
        ((unlinked free).data + size) ((unlinked free).size - size) (some (.lease id))
        (unlinked free).next
      (inserted.1, { inserted.2 with freeBytes := region'.freeBytes - size }) := by
  have hremaining : (unlinked free).size - size ≠ 0 := by omega
  rw [acquire, hunlink]
  simp only [if_neg hremaining]
  refine Prod.ext ?_ rfl
  funext block
  dsimp only
  -- The lease already points at the new node.
  rw [assign_apply]
  split
  · next heq =>
      obtain rfl : BlockRef.lease id = block := Option.some.inj heq
      have hne : BlockRef.lease id ≠
          node ((unlinked free).data + size) ((unlinked free).size - size) := nofun
      rw [insert_other hne, if_pos rfl]
  · rfl

end Unlinked

theorem Formed.acquire (h : Formed blocks region tiles) (hid : .lease id ∉ tiles)
    (hmem : free ∈ tiles) (hfree : (blocks free).free = true) (hpos : 0 < size)
    (haligned : alignment ∣ size) (hsize : size ≤ (blocks free).size) :
    ∃ tiles', Reshaped blocks region tiles id (acquire blocks region free (.lease id) size) tiles' ∧
      .lease id ∈ tiles' ∧
      ((acquire blocks region free (.lease id) size).1 (.lease id)).data = (blocks free).data ∧
      ((acquire blocks region free (.lease id) size).1 (.lease id)).size = size := by
  obtain ⟨front, back, hsplit⟩ := List.append_of_mem hmem
  obtain rfl : tiles = front ++ [free] ++ back := by simp [hsplit]
  have hsame := unlink_relinked blocks region free
  have hbinned := unlink_binned h.binned ⟨hmem, hfree⟩
  have hframe : ∀ block, block ∉ front ++ [free] ++ back → _ := fun block hout =>
    unlink_frame h.binned ⟨hmem, hfree⟩ fun hin => hout hin.1
  have hbytes : (unlink blocks region free).2.bytes = region.bytes := rfl
  have hcount : (unlink blocks region free).2.freeBytes = region.freeBytes := rfl
  have hlarge := h.le_freeBytes hmem hfree
  generalize hunlink : unlink blocks region free = result at *
  obtain ⟨unlinked, region'⟩ := result
  dsimp only at hsame hbinned hframe hbytes hcount
  have htiled := h.tiled.congr fun block _ => hsame block
  have hmarked := (hsame free).free.trans hfree
  have hwhole := (hsame free).size
  obtain ⟨hprevious, hnext⟩ := htiled.neighbours
  have hlease : ∀ other, BlockRef.lease other ≠ free := by
    rintro other rfl
    rw [h.tiled.lease_not_free hmem] at hfree
    cases hfree
  have hunlinked : ∀ block, block ∉ front ++ [free] ++ back → block ≠ .lease id →
      own unlinked free (.lease id) size block = blocks block := by
    intro block hout hblock
    rw [own_untouched hblock, hframe block hout]
    · exact hprevious ▸ (edges_ne hout).1
    · exact hnext ▸ (edges_ne hout).2
  have howned : Binned (own unlinked free (.lease id) size) region' fun block =>
      (block ∈ front ++ [free] ++ back ∧ (blocks block).free = true) ∧ block ∉ [free] := by
    apply hbinned.congr rfl rfl fun block => by rw [List.mem_singleton]
    rintro block ⟨⟨hin, -⟩, -⟩
    have hblock : block ≠ .lease id := fun heq => hid (heq ▸ hin)
    rw [own_other _ _ hblock]
    exact ⟨rfl, rfl, rfl⟩
  rcases Nat.eq_or_lt_of_le (hsize.trans_eq hwhole.symm) with hexact | hlarger
  · have hheld := own_held size htiled hid
    rw [acquire_exact hunlink hexact.symm]
    refine ⟨_, Reshaped.of_exchange h hsame (own_exchanged htiled hid hmarked hexact.symm) ?_ ?_ ?_
      hbytes ?_, by simp, ?_, ?_⟩
    · refine howned.congr rfl rfl (fun block => or_iff_left ?_) fun _ _ => ⟨rfl, rfl, rfl⟩
      rintro ⟨hin, hheld_free⟩
      obtain rfl := List.mem_singleton.mp hin
      cases (congrArg ArenaBlock.free hheld).symm.trans hheld_free
    · exact fun block hout hin => hunlinked block hout fun heq => hin (by simp [heq])
    · simp only [freeTotal_singleton, hheld, hfree, if_true, Bool.false_eq_true, if_false]
      omega
    · exact fun other hother => ⟨by simpa using hlease other, by simpa using hother⟩
    · exact (congrArg ArenaBlock.data hheld).trans (hsame free).data
    · exact congrArg ArenaBlock.size hheld
  · have hnode := node_remains ((htiled.tile free hmem).placed hmarked) (Nat.le_of_lt hlarger)
    obtain ⟨hexchanged, hheld, hrest_free, hrest⟩ := split_exchanged htiled hid hmarked hpos haligned
      hlarger (fun heq => (hbinned.frees_of_head heq).1.2 rfl) rfl
    have hlists := @insert_binned _ _ _ ((unlinked free).data + size) ((unlinked free).size - size)
      (some (.lease id)) (unlinked free).next howned (by rw [hnode]; simp)
      (by rw [hnode]; exact fun heq => hlease id (Option.some.inj heq))
      (by
        rw [hnode, hnext]
        exact fun heq => (middle_out h.tiled.nodup (List.mem_singleton_self free)).2
          (List.mem_of_mem_head? heq))
    rw [acquire_split hunlink hlarger]
    refine ⟨_, Reshaped.of_exchange h hsame hexchanged ?_ ?_ ?_ hbytes ?_, by simp,
      hheld.1.trans (hsame free).data, hheld.2.1⟩
    · refine hlists.congr rfl rfl (fun block => or_congr Iff.rfl ?_) fun _ _ => ⟨rfl, rfl, rfl⟩
      rw [hnode, List.mem_cons, List.mem_singleton]
      constructor
      · rintro ⟨rfl | rfl, hblock⟩
        · rw [hheld.2.2] at hblock
          cases hblock
        · rfl
      · rintro rfl
        exact ⟨.inr rfl, hrest_free⟩
    · intro block hout hin
      have hblock : block ≠ .lease id := fun heq => hin (by simp [heq])
      dsimp only
      rw [insert_untouched _ (fun heq => hblock (Option.some.inj heq).symm),
        hunlinked block hout hblock]
      · exact hnext ▸ (edges_ne hout).2
      · exact fun heq => hout (hbinned.frees_of_head heq).1.1.1
      · rw [hnode]
        exact fun heq => hout (heq ▸ hmem)
    · dsimp only
      rw [freeTotal_pair, freeTotal_singleton, if_pos hfree, if_pos hrest_free, hrest, hheld.2.2,
        hwhole]
      show region'.freeBytes - size + (blocks free).size = region.freeBytes + (0 + _)
      omega
    · exact fun other hother => ⟨by simpa using hlease other, by simp [hother, hlease other]⟩

end Acquire

end Region

end Mmltk.Compile
