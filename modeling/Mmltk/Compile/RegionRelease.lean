import Mmltk.Compile.RegionMoves

namespace Mmltk.Compile

namespace Region

section Release

variable {blocks : Blocks} {region : Region} {tiles front middle middle' back : List BlockRef}
  {bytes : Span} {id data size : Nat} {neighbour : Option BlockRef}

/-! An extent and the unused neighbours it has taken in: `middle` of the tiles, already out of
their bins. -/

structure Gathered (blocks : Blocks) (region : Region) (tiles middle : List BlockRef)
    (data size : Nat) : Prop where
  spans : Spans blocks data middle (data + size)
  binned : Binned blocks region fun block =>
    (block ∈ tiles ∧ (blocks block).free = true) ∧ block ∉ middle

/-- What joining one neighbour keeps. -/
structure Joins (blocks : Blocks) (region : Region) (tiles middle : List BlockRef)
    (size : Nat) (joined : Joined) (middle' : List BlockRef) : Prop where
  same : ∀ block, Relinked (blocks block) (joined.blocks block)
  outside : ∀ block, block ∉ tiles → joined.blocks block = blocks block
  held : ∀ block ∈ middle', block ∈ middle ∨ (blocks block).free = true
  total : freeTotal blocks middle' + size = freeTotal blocks middle + joined.size
  bytes : joined.region.bytes = region.bytes
  freeBytes : joined.region.freeBytes = region.freeBytes
  gathered : Gathered joined.blocks joined.region tiles middle' joined.data joined.size

theorem Joins.refl (h : Gathered blocks region tiles middle data size) :
    Joins blocks region tiles middle size ⟨blocks, region, data, size, neighbour⟩ middle :=
  ⟨fun _ => Relinked.rfl, fun _ _ => rfl, fun _ hin => .inl hin, rfl, rfl, rfl, h⟩

/-- One more unused block taken out of its bin. -/
theorem Joins.unlink {target : BlockRef} {data' : Nat}
    (h : Gathered blocks region tiles middle data size) (hin : target ∈ tiles)
    (hfree : (blocks target).free = true) (hout : target ∉ middle)
    (hperm : middle'.Perm (target :: middle))
    (hspans : Spans blocks data' middle' (data' + (size + (blocks target).size))) :
    Joins blocks region tiles middle size ⟨(Region.unlink blocks region target).1,
      (Region.unlink blocks region target).2, data',
      size + ((Region.unlink blocks region target).1 target).size, neighbour⟩ middle' := by
  have hsame := unlink_relinked blocks region target
  refine ⟨hsame, ?_, ?_, ?_, rfl, rfl, ?_, ?_⟩
  · intro block hblock
    exact unlink_frame h.binned ⟨⟨hin, hfree⟩, hout⟩ fun hfrees => hblock hfrees.1.1
  · intro block hblock
    rcases List.mem_cons.mp (hperm.subset hblock) with rfl | hmid
    · exact .inr hfree
    · exact .inl hmid
  · have hsum : freeTotal blocks middle' = _ := (hperm.map _).sum_eq
    rw [List.map_cons, List.sum_cons, if_pos hfree] at hsum
    rw [hsum, (hsame target).size]
    show _ + freeTotal blocks middle + size = freeTotal blocks middle + (size + (blocks target).size)
    omega
  · rw [(hsame target).size]
    exact hspans.congr fun block _ => ⟨(hsame block).data, (hsame block).size⟩
  · refine (unlink_binned h.binned ⟨⟨hin, hfree⟩, hout⟩).congr rfl rfl (fun block => ?_)
      fun _ _ => ⟨rfl, rfl, rfl⟩
    rw [(hsame block).free, hperm.mem_iff, List.mem_cons, not_or, and_comm (a := ¬ block = target),
      ← and_assoc]

theorem Joins.trans {middle'' : List BlockRef} {left right : Joined}
    (h : Joins blocks region tiles middle size left middle')
    (h' : Joins left.blocks left.region tiles middle' left.size right middle'') :
    Joins blocks region tiles middle size right middle'' where
  same block :=
    ⟨(h'.same block).data.trans (h.same block).data, (h'.same block).size.trans (h.same block).size,
      (h'.same block).previous.trans (h.same block).previous,
      (h'.same block).next.trans (h.same block).next,
      (h'.same block).free.trans (h.same block).free⟩
  outside block hblock := (h'.outside block hblock).trans (h.outside block hblock)
  held block hblock := by
    rcases h'.held block hblock with hin | hfree
    · exact h.held block hin
    · exact .inr ((h.same block).free ▸ hfree)
  total := by
    have hfirst := h.total
    have hsecond := h'.total
    have hcongr : ∀ list, freeTotal left.blocks list = freeTotal blocks list := fun list =>
      freeTotal_congr fun block _ => ⟨(h.same block).size, (h.same block).free⟩
    rw [hcongr, hcongr] at hsecond
    omega
  bytes := h'.bytes.trans h.bytes
  freeBytes := h'.freeBytes.trans h.freeBytes
  gathered := h'.gathered

theorem joinPrevious_spec (hmiddle : middle ≠ [])
    (htiled : Tiled blocks bytes (front ++ middle ++ back))
    (hgathered : Gathered blocks region (front ++ middle ++ back) middle data size) :
    ∃ front' left, front = front' ++ left ∧
      (∀ block ∈ front'.getLast?, (blocks block).free = false) ∧
      (joinPrevious blocks region data size front.getLast?).neighbour = front'.getLast? ∧
      Joins blocks region (front ++ middle ++ back) middle size
        (joinPrevious blocks region data size front.getLast?) (left ++ middle) := by
  rcases front.eq_nil_or_concat' with rfl | ⟨front, previous, rfl⟩
  · exact ⟨[], [], rfl, by simp, rfl, Joins.refl hgathered⟩
  rw [List.getLast?_concat, joinPrevious]
  cases hfree : (blocks previous).free with
  | false =>
      refine ⟨front ++ [previous], [], by simp, ?_, by simp, Joins.refl hgathered⟩
      intro block hin
      rw [List.getLast?_concat] at hin
      rw [← Option.some.inj hin, hfree]
  | true =>
      have hsplit : Tiled blocks bytes (front ++ [previous] ++ (middle ++ back)) := by
        simpa using htiled
      have hsame := unlink_relinked blocks region previous
      obtain ⟨stop, hfront, -⟩ := spans_append.mp htiled.spans
      obtain ⟨start, hfront, hmid⟩ := spans_append.mp hfront
      obtain ⟨place, -, hdata, hend⟩ := spans_append.mp hfront
      have hstart := (hmid.unique hgathered.spans hmiddle).1
      have hwhole : ∀ data', data' = (blocks previous).data → Spans blocks data'
          ([previous] ++ middle) (data' + (size + (blocks previous).size)) := by
        rintro _ rfl
        have hstop : (blocks previous).data + (blocks previous).size = data := by
          rw [hdata, ← hstart]
          exact hend
        refine ⟨rfl, ?_⟩
        rw [Nat.add_comm size, ← Nat.add_assoc, hstop]
        exact hgathered.spans
      exact ⟨front, [previous], rfl, (hsplit.edges hfree).1,
        (hsame previous).previous.trans hsplit.neighbours.1, Joins.unlink hgathered (by simp) hfree
          (fun hmid => (middle_out htiled.nodup hmid).1 (by simp)) (List.Perm.refl _)
          (hwhole _ (hsame previous).data)⟩

theorem joinNext_spec (hmiddle : middle ≠ [])
    (htiled : Tiled blocks bytes (front ++ middle ++ back))
    (hgathered : Gathered blocks region (front ++ middle ++ back) middle data size) :
    ∃ right back', back = right ++ back' ∧
      (∀ block ∈ back'.head?, (blocks block).free = false) ∧
      (joinNext blocks region data size back.head?).neighbour = back'.head? ∧
      Joins blocks region (front ++ middle ++ back) middle size
        (joinNext blocks region data size back.head?) (middle ++ right) := by
  cases back with
  | nil =>
      rw [List.head?_nil, joinNext]
      exact ⟨[], [], rfl, by simp, rfl, by simpa using Joins.refl hgathered⟩
  | cons next back =>
      rw [List.head?_cons, joinNext]
      cases hfree : (blocks next).free with
      | false =>
          refine ⟨[], next :: back, rfl, ?_, rfl, by simpa using Joins.refl hgathered⟩
          intro block hin
          rw [← Option.some.inj hin, hfree]
      | true =>
          have hsplit : Tiled blocks bytes (front ++ middle ++ [next] ++ back) := by
            simpa using htiled
          have hsame := unlink_relinked blocks region next
          obtain ⟨stop, hfront, hback⟩ := spans_append.mp htiled.spans
          obtain ⟨start, -, hmid⟩ := spans_append.mp hfront
          have hstop := (hmid.unique hgathered.spans hmiddle).2
          refine ⟨[next], back, rfl, (hsplit.edges hfree).2,
            (hsame next).next.trans hsplit.neighbours.2,
            Joins.unlink hgathered (by simp) hfree
              (fun hmid => (middle_out htiled.nodup hmid).2 (by simp))
              (List.perm_append_singleton _ _) (spans_append.mpr
                ⟨data + size, hgathered.spans, hback.1.trans hstop, Nat.add_assoc _ _ _⟩)⟩

/-- The last block of a list of tiles ends where they end, so their common node is its own. -/
theorem Tiled.node_in (h : Tiled blocks bytes (front ++ middle ++ back)) (hmiddle : middle ≠ [])
    (hspans : Spans blocks data middle (data + size)) (hsize : alignment ≤ size)
    (hnode : node data size ∈ front ++ middle ++ back) : node data size ∈ middle := by
  rcases middle.eq_nil_or_concat' with rfl | ⟨rest, last, rfl⟩
  · exact absurd rfl hmiddle
  obtain ⟨start, -, hdata, hstop⟩ := spans_append.mp hspans
  have hend : data + size = (blocks last).data + (blocks last).size := by
    rw [hdata]
    exact hstop.symm
  rw [h.node_eq (by simp) hnode hsize hend]
  simp

/-- The gathered extent put back as one unused block. -/
theorem insert_exchanged (hspans : Spans blocks data middle (data + size)) (hmiddle : middle ≠ [])
    (hlarge : alignment ≤ size) (haligned : alignment ∣ size)
    (hleft : ∀ block ∈ front.getLast?, (blocks block).free = false)
    (hright : ∀ block ∈ back.head?, (blocks block).free = false)
    (hout : ∀ block, block ∈ front ∨ block ∈ back → block ≠ node data size)
    (hself : (insert blocks region data size front.getLast? back.head?).1 (node data size) =
      unused region data size front.getLast? back.head?) :
    Exchanged blocks (insert blocks region data size front.getLast? back.head?).1 front middle
      [node data size] back := by
  refine ⟨?_, ?_, List.cons_ne_nil _ _, ?_, ?_, List.isChain_singleton _, hleft, hright⟩
  · intro block hin
    rw [insert_other (hout block hin)]
    exact ⟨⟨rfl, rfl, rfl⟩, rfl, rfl⟩
  · exact ⟨congrArg ArenaBlock.previous hself, congrArg ArenaBlock.next hself, trivial⟩
  · intro start stop hold
    obtain ⟨rfl, rfl⟩ := hold.unique hspans hmiddle
    exact ⟨by rw [hself], by rw [hself]; rfl⟩
  · intro block hblock
    rw [List.mem_singleton.mp hblock, hself]
    exact ⟨Nat.lt_of_lt_of_le (by decide) hlarge, haligned, fun _ => rfl, nofun⟩

theorem Formed.coalesce {joined : Joined} (h : Formed blocks region (front ++ middle ++ back))
    (hlease : BlockRef.lease id ∈ middle)
    (hjoins : Joins blocks
      { region with freeBytes := region.freeBytes + (blocks (.lease id)).size }
      (front ++ middle ++ back) [.lease id] (blocks (.lease id)).size joined middle)
    (hleft : ∀ block ∈ front.getLast?, (blocks block).free = false)
    (hright : ∀ block ∈ back.head?, (blocks block).free = false) :
    ∃ tiles', Reshaped blocks region (front ++ middle ++ back) id
        (insert joined.blocks joined.region joined.data joined.size front.getLast? back.head?)
        tiles' ∧ BlockRef.lease id ∉ tiles' := by
  have htiled := h.tiled.congr fun block _ => hjoins.same block
  have hgathered := hjoins.gathered
  have hmiddle := List.ne_nil_of_mem hlease
  have hin : BlockRef.lease id ∈ front ++ middle ++ back := by simp [hlease]
  have hheld := h.tiled.lease_not_free hin
  obtain ⟨units, hunits⟩ := hgathered.spans.aligned fun block hin =>
    (htiled.tile block (by simp [hin])).aligned
  have hlarge : alignment ≤ joined.size := by
    have hinside := hgathered.spans.inside hlease
    have hsize := htiled.alignment_le hin
    omega
  have hnode := htiled.node_in hmiddle hgathered.spans hlarge
  have hout : ∀ block, block ∈ front ∨ block ∈ back → block ≠ node joined.data joined.size := by
    rintro block (hin | hin) rfl
    · exact (middle_out htiled.nodup (hnode (by simp [hin]))).1 hin
    · exact (middle_out htiled.nodup (hnode (by simp [hin]))).2 hin
  have hbinned : ¬ ((node joined.data joined.size ∈ front ++ middle ++ back ∧
      (joined.blocks (node joined.data joined.size)).free = true) ∧
        node joined.data joined.size ∉ middle) := fun hfrees => hfrees.2 (hnode hfrees.1.1)
  have hnot_previous : front.getLast? ≠ some (node joined.data joined.size) := fun heq =>
    hout _ (.inl (List.mem_of_getLast? heq)) rfl
  have hnot_next : back.head? ≠ some (node joined.data joined.size) := fun heq =>
    hout _ (.inr (List.mem_of_mem_head? heq)) rfl
  have hself := insert_self joined.blocks hnot_previous hnot_next fun heq =>
    hbinned (hgathered.binned.frees_of_head heq).1
  have hexchanged := insert_exchanged hgathered.spans hmiddle hlarge ⟨units, by omega⟩
    (fun block hin => (hjoins.same block).free.trans (hleft block hin))
    (fun block hin => (hjoins.same block).free.trans (hright block hin)) hout hself
  refine ⟨front ++ [node joined.data joined.size] ++ back,
    Reshaped.of_exchange h hjoins.same hexchanged ?_ ?_ ?_ hjoins.bytes ?_, ?_⟩
  · refine (insert_binned hgathered.binned hbinned hnot_previous hnot_next).congr rfl rfl
      (fun block => ?_) fun _ _ => ⟨rfl, rfl, rfl⟩
    rw [(hjoins.same block).free, List.mem_singleton]
    apply or_congr_right
    apply and_iff_left_of_imp
    rintro rfl
    rw [hself]
  · intro block hold hnew
    rw [insert_untouched (fun heq => hnew (by simp [heq])) (edges_ne hold).1 (edges_ne hold).2
      fun heq => hold (hgathered.binned.frees_of_head heq).1.1.1]
    exact hjoins.outside block hold
  · have htotal := hjoins.total
    have hbytes : joined.region.freeBytes = region.freeBytes + _ := hjoins.freeBytes
    rw [freeTotal_singleton, hheld] at htotal
    rw [freeTotal_singleton, hself]
    show joined.region.freeBytes + freeTotal blocks middle = region.freeBytes + joined.size
    simp only [Bool.false_eq_true, if_false] at htotal
    omega
  · intro other hother
    refine ⟨fun hin => ?_, by simp [node]⟩
    rcases hjoins.held _ hin with hsame | hfree
    · exact hother (BlockRef.lease.inj (List.mem_singleton.mp hsame))
    · rw [h.tiled.lease_not_free (by simp [hin])] at hfree
      cases hfree
  · simp only [List.mem_append, List.mem_singleton, not_or]
    obtain ⟨hfront, hback⟩ := middle_out htiled.nodup hlease
    exact ⟨⟨hfront, by simp [node]⟩, hback⟩

theorem Formed.release (h : Formed blocks region tiles) (hmem : .lease id ∈ tiles) :
    ∃ tiles', Reshaped blocks region tiles id (release blocks region (.lease id)) tiles' ∧
      BlockRef.lease id ∉ tiles' := by
  obtain ⟨front, back, hsplit⟩ := List.append_of_mem hmem
  obtain rfl : tiles = front ++ [.lease id] ++ back := by simp [hsplit]
  have hheld := h.tiled.lease_not_free hmem
  obtain ⟨hprevious, hnext⟩ := h.tiled.neighbours
  rw [Region.release, hprevious, hnext]
  have hgathered : Gathered blocks
      { region with freeBytes := region.freeBytes + (blocks (.lease id)).size }
      (front ++ [.lease id] ++ back) [.lease id] (blocks (.lease id)).data
      (blocks (.lease id)).size := by
    refine ⟨⟨rfl, rfl⟩, h.binned.congr rfl rfl (fun block => ?_) fun _ _ => ⟨rfl, rfl, rfl⟩⟩
    apply and_iff_left_of_imp
    rintro ⟨-, hfree⟩ hin
    rw [List.mem_singleton.mp hin, hheld] at hfree
    cases hfree
  obtain ⟨front', left, rfl, hleft, hneighbour, hjoins⟩ :=
    joinPrevious_spec (List.cons_ne_nil _ _) h.tiled hgathered
  generalize joinPrevious blocks _ _ _ (front' ++ left).getLast? = first at *
  have hregroup : front' ++ left ++ [BlockRef.lease id] ++ back =
      front' ++ (left ++ [.lease id]) ++ back := by simp
  have htiled := h.tiled.congr fun block _ => hjoins.same block
  rw [hregroup] at htiled hjoins h hmem
  obtain ⟨right, back', rfl, hright, hneighbour', hjoins'⟩ :=
    joinNext_spec (by simp) htiled hjoins.gathered
  generalize joinNext first.blocks first.region first.data first.size (right ++ back').head? =
    second at *
  have hregroup' : front' ++ (left ++ [BlockRef.lease id]) ++ (right ++ back') =
      front' ++ (left ++ [.lease id] ++ right) ++ back' := by simp
  have hboth := hjoins.trans hjoins'
  rw [hregroup'] at hboth h
  rw [hregroup, hregroup', hneighbour, hneighbour']
  exact h.coalesce (by simp) hboth hleft fun block hin => (hjoins.same block).free ▸ hright block hin

end Release

end Region

end Mmltk.Compile
