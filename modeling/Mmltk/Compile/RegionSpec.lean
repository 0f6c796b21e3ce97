import Mathlib.Data.List.Chain
import Mathlib.Data.List.Perm.Subperm
import Mathlib.Algebra.Order.BigOperators.Group.List
import Mathlib.Algebra.Order.Group.Nat
import Mmltk.Compile.ArenaSpec

namespace Mmltk.Compile

open Mmltk.Foundation

namespace Region

/-! Consecutive extents. -/

section Spans

variable {blocks blocks' : Blocks} {start stop : Nat} {front back tiles : List BlockRef}

theorem spans_append :
    Spans blocks start (front ++ back) stop ↔
      ∃ middle, Spans blocks start front middle ∧ Spans blocks middle back stop := by
  induction front generalizing start with
  | nil => simp [Spans]
  | cons block rest ih =>
      simp only [List.cons_append, Spans, ih]
      constructor
      · rintro ⟨hdata, middle, hfront, hback⟩
        exact ⟨middle, ⟨hdata, hfront⟩, hback⟩
      · rintro ⟨middle, ⟨hdata, hfront⟩, hback⟩
        exact ⟨hdata, middle, hfront, hback⟩

theorem Spans.congr (h : Spans blocks start tiles stop)
    (hblocks : ∀ block ∈ tiles, (blocks' block).data = (blocks block).data ∧
      (blocks' block).size = (blocks block).size) :
    Spans blocks' start tiles stop := by
  induction tiles generalizing start with
  | nil => exact h
  | cons block rest ih =>
      have hblock := hblocks block (by simp)
      refine ⟨hblock.1.trans h.1, ?_⟩
      rw [hblock.2]
      exact ih h.2 fun other hother => hblocks other (List.mem_cons_of_mem _ hother)

theorem Spans.le (h : Spans blocks start tiles stop) : start ≤ stop := by
  induction tiles generalizing start with
  | nil => exact Nat.le_of_eq h
  | cons block rest ih => exact Nat.le_trans (Nat.le_add_right _ _) (ih h.2)

theorem Spans.inside (h : Spans blocks start tiles stop) {block : BlockRef}
    (hblock : block ∈ tiles) :
    start ≤ (blocks block).data ∧ (blocks block).data + (blocks block).size ≤ stop := by
  obtain ⟨front, back, rfl⟩ := List.append_of_mem hblock
  obtain ⟨middle, hfront, hdata, hback⟩ := spans_append.mp h
  rw [hdata]
  exact ⟨hfront.le, hback.le⟩

theorem Spans.total (h : Spans blocks start tiles stop) :
    start + (tiles.map fun block => (blocks block).size).sum = stop := by
  induction tiles generalizing start with
  | nil => exact h
  | cons block rest ih =>
      rw [List.map_cons, List.sum_cons, ← Nat.add_assoc]
      exact ih h.2

/-- Two tiles never share a byte. -/
theorem Spans.disjoint (h : Spans blocks start tiles stop) {left right : BlockRef}
    (hleft : left ∈ tiles) (hright : right ∈ tiles) (hne : left ≠ right) :
    (blocks left).data + (blocks left).size ≤ (blocks right).data ∨
      (blocks right).data + (blocks right).size ≤ (blocks left).data := by
  induction tiles generalizing start with
  | nil => cases hleft
  | cons block rest ih =>
      rcases List.mem_cons.mp hleft with hfirst | hleft_rest
      · rcases List.mem_cons.mp hright with hsame | hright_rest
        · exact absurd (hfirst.trans hsame.symm) hne
        · rw [hfirst, h.1]
          exact .inl (h.2.inside hright_rest).1
      · rcases List.mem_cons.mp hright with hfirst | hright_rest
        · rw [hfirst, h.1]
          exact .inr (h.2.inside hleft_rest).1
        · exact ih h.2 hleft_rest hright_rest

theorem Spans.nodup (h : Spans blocks start tiles stop)
    (hpos : ∀ block ∈ tiles, 0 < (blocks block).size) : tiles.Nodup := by
  induction tiles generalizing start with
  | nil => exact List.nodup_nil
  | cons block rest ih =>
      refine List.nodup_cons.mpr ⟨fun hin => ?_, ?_⟩
      · have hlater := (h.2.inside hin).1
        have hdata := h.1
        have hsize := hpos block List.mem_cons_self
        omega
      · exact ih h.2 fun other hother => hpos other (List.mem_cons_of_mem _ hother)

theorem Spans.aligned (h : Spans blocks start tiles stop)
    (hsized : ∀ block ∈ tiles, alignment ∣ (blocks block).size) :
    ∃ units, stop = start + alignment * units := by
  induction tiles generalizing start with
  | nil => exact ⟨0, h.symm⟩
  | cons block rest ih =>
      obtain ⟨units, hunits⟩ := hsized block (by simp)
      obtain ⟨more, hmore⟩ := ih h.2 fun other hother => hsized other (List.mem_cons_of_mem _ hother)
      exact ⟨units + more, by rw [hmore, hunits, Nat.mul_add, Nat.add_assoc]⟩

/-- A list of tiles says itself where it starts and ends. -/
theorem Spans.unique {start' stop' : Nat} (h : Spans blocks start tiles stop)
    (h' : Spans blocks start' tiles stop') (hne : tiles ≠ []) : start = start' ∧ stop = stop' := by
  have hstart : start = start' := by
    cases tiles with
    | nil => exact absurd rfl hne
    | cons block rest => exact h.1.symm.trans h'.1
  exact ⟨hstart, by rw [← h.total, ← h'.total, hstart]⟩

end Spans

/-! Tiles exchanged for others over the same extent. -/

section Tiled

variable {blocks blocks' : Blocks} {bytes : Span} {front middle middle' back tiles : List BlockRef}

theorem Tiled.inside (h : Tiled blocks bytes tiles) {block : BlockRef} (hblock : block ∈ tiles) :
    bytes.data ≤ (blocks block).data ∧ (blocks block).data + (blocks block).size ≤ bytes.stop :=
  h.spans.inside hblock

theorem Tiled.nodup (h : Tiled blocks bytes tiles) : tiles.Nodup :=
  h.spans.nodup fun block hblock => (h.tile block hblock).pos

theorem Tiled.alignment_le (h : Tiled blocks bytes tiles) {block : BlockRef}
    (hblock : block ∈ tiles) : alignment ≤ (blocks block).size :=
  Nat.le_of_dvd (h.tile block hblock).pos (h.tile block hblock).aligned

theorem Tiled.congr (h : Tiled blocks bytes tiles)
    (hblocks : ∀ block ∈ tiles, Relinked (blocks block) (blocks' block)) :
    Tiled blocks' bytes tiles where
  linked := h.linked.congr (fun block hblock => (hblocks block hblock).previous)
    (fun block hblock => (hblocks block hblock).next)
  spans := h.spans.congr fun block hblock => ⟨(hblocks block hblock).data, (hblocks block hblock).size⟩
  tile block hblock := (h.tile block hblock).congr (hblocks block hblock).kept
  apart := by
    apply h.apart.imp_of_mem_imp
    intro left right hleft hright hapart
    rw [(hblocks left hleft).free, (hblocks right hright).free]
    exact hapart

theorem Tiled.neighbours {block : BlockRef} (h : Tiled blocks bytes (front ++ [block] ++ back)) :
    (blocks block).previous = front.getLast? ∧ (blocks block).next = back.head? := by
  have hlinked := h.linked
  rw [List.append_assoc, List.singleton_append] at hlinked
  have hmiddle := hlinked.middle
  rwa [Option.or_none, Option.or_none] at hmiddle

/-- The neighbours of an unused block are in use. -/
theorem Tiled.edges {block : BlockRef} (h : Tiled blocks bytes (front ++ [block] ++ back))
    (hfree : (blocks block).free = true) :
    (∀ left ∈ front.getLast?, (blocks left).free = false) ∧
      ∀ right ∈ back.head?, (blocks right).free = false := by
  have hapart := h.apart
  rw [List.append_assoc, List.isChain_append, List.isChain_append] at hapart
  refine ⟨fun left hleft => ?_, fun right hright => ?_⟩
  · exact Bool.eq_false_iff.mpr fun hused => hapart.2.2 left hleft block rfl ⟨hused, hfree⟩
  · exact Bool.eq_false_iff.mpr fun hused => hapart.2.1.2.2 block rfl right hright ⟨hfree, hused⟩

/-- `middle` exchanged for `middle'` between neighbours in use. -/
structure Exchanged (blocks blocks' : Blocks) (front middle middle' back : List BlockRef) :
    Prop where
  outside : ∀ block, block ∈ front ∨ block ∈ back → Kept (blocks block) (blocks' block) ∧
    (blocks' block).next =
      (if front.getLast? = some block then middle'.head? else (blocks block).next) ∧
    (blocks' block).previous =
      if back.head? = some block then middle'.getLast? else (blocks block).previous
  linked : Linked (fun block => (blocks' block).previous) (fun block => (blocks' block).next)
    front.getLast? middle' back.head?
  filled : middle' ≠ []
  spans : ∀ start stop, Spans blocks start middle stop → Spans blocks' start middle' stop
  tile : ∀ block ∈ middle', Tile block (blocks' block)
  apart : middle'.IsChain fun left right =>
    ¬ ((blocks' left).free = true ∧ (blocks' right).free = true)
  left : ∀ block ∈ front.getLast?, (blocks block).free = false
  right : ∀ block ∈ back.head?, (blocks block).free = false

theorem front_ne_back (h : (front ++ middle ++ back).Nodup) {block other : BlockRef}
    (hblock : block ∈ front) (hother : other ∈ back) : block ≠ other :=
  (List.nodup_append.mp h).2.2 block (List.mem_append_left _ hblock) other hother

theorem middle_out (h : (front ++ middle ++ back).Nodup) {block : BlockRef}
    (hblock : block ∈ middle) : block ∉ front ∧ block ∉ back := by
  obtain ⟨hleft, -, hacross⟩ := List.nodup_append.mp h
  exact ⟨fun hin => (List.nodup_append.mp hleft).2.2 block hin block hblock rfl,
    fun hin => hacross block (List.mem_append_right _ hblock) block hin rfl⟩

theorem edges_ne {block : BlockRef} (h : block ∉ front ++ middle ++ back) :
    front.getLast? ≠ some block ∧ back.head? ≠ some block :=
  ⟨fun heq => h (by simp [List.mem_of_getLast? heq]),
    fun heq => h (by simp [List.mem_of_mem_head? heq])⟩

theorem Exchanged.tiled (h : Exchanged blocks blocks' front middle middle' back)
    (htiled : Tiled blocks bytes (front ++ middle ++ back)) :
    Tiled blocks' bytes (front ++ middle' ++ back) where
  linked := by
    have hnodup := htiled.nodup
    apply htiled.linked.splice hnodup h.filled h.linked
    · intro block hblock
      rw [(h.outside block (.inl hblock)).2.2]
      exact if_neg fun heq => front_ne_back hnodup hblock (List.mem_of_mem_head? heq) rfl
    · exact fun block hblock => (h.outside block (.inl hblock)).2.1
    · intro block hblock
      rw [(h.outside block (.inr hblock)).2.1]
      exact if_neg fun heq => front_ne_back hnodup (List.mem_of_getLast? heq) hblock rfl
    · exact fun block hblock => (h.outside block (.inr hblock)).2.2
  spans := by
    obtain ⟨right, hleft, hback⟩ := spans_append.mp htiled.spans
    obtain ⟨left, hfront, hmid⟩ := spans_append.mp hleft
    have hsame : ∀ block, block ∈ front ∨ block ∈ back →
        (blocks' block).data = (blocks block).data ∧ (blocks' block).size = (blocks block).size :=
      fun block hblock => ⟨(h.outside block hblock).1.1, (h.outside block hblock).1.2.1⟩
    exact spans_append.mpr ⟨right, spans_append.mpr ⟨left,
      hfront.congr fun block hblock => hsame block (.inl hblock), h.spans left right hmid⟩,
      hback.congr fun block hblock => hsame block (.inr hblock)⟩
  tile block hblock := by
    rcases List.mem_append.mp hblock with hin | hback
    · rcases List.mem_append.mp hin with hfront | hmid
      · exact (htiled.tile block (by simp [hfront])).congr (h.outside block (.inl hfront)).1
      · exact h.tile block hmid
    · exact (htiled.tile block (by simp [hback])).congr (h.outside block (.inr hback)).1
  apart := by
    have hold := htiled.apart
    have hfree : ∀ block, block ∈ front ∨ block ∈ back →
        (blocks' block).free = (blocks block).free := fun block hblock =>
      (h.outside block hblock).1.2.2
    rw [List.isChain_append, List.isChain_append] at hold ⊢
    refine ⟨⟨?_, h.apart, ?_⟩, ?_, ?_⟩
    · apply hold.1.1.imp_of_mem_imp
      intro left right hl hr hne
      rw [hfree left (.inl hl), hfree right (.inl hr)]
      exact hne
    · rintro left hl right - ⟨hused, -⟩
      rw [hfree left (.inl (List.mem_of_getLast? hl)), h.left left hl] at hused
      cases hused
    · apply hold.2.1.imp_of_mem_imp
      intro left right hl hr hne
      rw [hfree left (.inr hl), hfree right (.inr hr)]
      exact hne
    · rintro left - right hr ⟨-, hused⟩
      rw [hfree right (.inr (List.mem_of_mem_head? hr)), h.right right hr] at hused
      cases hused

end Tiled

/-! `find` -/

theorem bin_lt {size : Nat} (h : size < 2 ^ 64) : bin size < 64 := by
  rcases Nat.eq_zero_or_pos (size / alignment) with hzero | hpos
  · rw [bin, hzero]
    decide
  · exact (Nat.log2_lt (Nat.ne_of_gt hpos)).mpr (Nat.lt_of_le_of_lt (Nat.div_le_self _ _) h)

/-- Every block of a later bin is larger. -/
theorem lt_of_bin_lt {size other : Nat} (h : bin size < bin other) : size < other := by
  rw [bin, bin, Nat.log2_eq_log_two, Nat.log2_eq_log_two] at h
  by_contra hle
  have hdiv := @Nat.div_le_div_right _ _ alignment (Nat.le_of_not_lt hle)
  exact Nat.not_lt.mpr (Nat.log_mono_right hdiv) h

theorem best_some {blocks : Blocks} {size : Nat} {found : Option BlockRef} {list : List BlockRef}
    {block : BlockRef} (h : best blocks size found list = some block)
    (hfound : ∀ other, found = some other → (blocks other).size ≥ size) :
    (found = some block ∨ block ∈ list) ∧ (blocks block).size ≥ size := by
  induction list generalizing found with
  | nil => exact ⟨.inl h, hfound block h⟩
  | cons candidate rest ih =>
      rw [best] at h
      split at h
      · next hfits =>
          split at h
          · next hexact =>
              obtain rfl := Option.some.inj h
              exact ⟨.inr (by simp), hfits.1⟩
          · have hnext := ih h fun other hother => Option.some.inj hother ▸ hfits.1
            refine ⟨?_, hnext.2⟩
            rcases hnext.1 with heq | hmem
            · exact .inr (by simp [Option.some.inj heq])
            · exact .inr (List.mem_cons_of_mem _ hmem)
      · have hnext := ih h hfound
        exact ⟨hnext.1.imp_right (List.mem_cons_of_mem _), hnext.2⟩

theorem best_none {blocks : Blocks} {size : Nat} {found : Option BlockRef} {list : List BlockRef}
    (h : best blocks size found list = none) :
    found = none ∧ ∀ block ∈ list, (blocks block).size < size := by
  induction list generalizing found with
  | nil => exact ⟨h, fun _ hmem => (List.not_mem_nil hmem).elim⟩
  | cons candidate rest ih =>
      rw [best] at h
      split at h
      · split at h
        · cases h
        · exact absurd (ih h).1 (Option.some_ne_none _)
      · next hsmall =>
          have hnext := ih h
          refine ⟨hnext.1, ?_⟩
          intro block hblock
          rcases List.mem_cons.mp hblock with rfl | hrest
          · rw [hnext.1] at hsmall
            by_contra hge
            exact hsmall ⟨Nat.le_of_not_lt hge, by simp⟩
          · exact hnext.2 block hrest

theorem countrZero_spec {word : BitVec 64} (h : word ≠ 0) :
    countrZero word < 64 ∧ word.getLsbD (countrZero word) = true := by
  obtain ⟨index, hindex, hbit⟩ : ∃ index, index < 64 ∧ word.getLsbD index = true := by
    by_contra hnone
    apply h
    apply BitVec.eq_of_getLsbD_eq
    intro index hindex
    cases hbit : word.getLsbD index with
    | false => exact BitVec.getLsbD_zero.symm
    | true => exact absurd ⟨index, hindex, hbit⟩ hnone
  cases hfind : (List.range 64).find? fun index => word.getLsbD index with
  | none =>
      have hall := List.find?_eq_none.mp hfind index (List.mem_range.mpr hindex)
      exact absurd hbit hall
  | some found =>
      rw [countrZero, hfind]
      exact ⟨List.mem_range.mp (List.mem_of_find?_eq_some hfind),
        List.find?_some hfind⟩

section Find

variable {blocks : Blocks} {region : Region} {tiles : List BlockRef} {size : Nat}

theorem Formed.size_le (h : Formed blocks region tiles) {block : BlockRef}
    (hblock : block ∈ tiles) : (blocks block).size ≤ region.bytes.size := by
  have hinside := h.tiled.inside hblock
  rw [Span.stop] at hinside
  omega

theorem Formed.bin_lt (h : Formed blocks region tiles) {block : BlockRef}
    (hblock : block ∈ tiles) : bin (blocks block).size < 64 :=
  Region.bin_lt (Nat.lt_of_le_of_lt (h.size_le hblock) h.bounded)

theorem Formed.le_freeBytes (h : Formed blocks region tiles) {block : BlockRef}
    (hblock : block ∈ tiles) (hfree : (blocks block).free = true) :
    (blocks block).size ≤ region.freeBytes := by
  rw [h.total, freeTotal]
  apply List.le_sum_of_mem
  rw [List.mem_map]
  exact ⟨block, hblock, by rw [if_pos hfree]⟩

/-- A bin holds at most one block for each unit of the region. -/
theorem Formed.length_le (h : Formed blocks region tiles) {list : List BlockRef}
    (hnodup : list.Nodup) (hsubset : list ⊆ tiles) :
    list.length ≤ region.bytes.size / alignment := by
  have hlength := (List.subperm_of_subset hnodup hsubset).length_le
  have htotal := h.tiled.spans.total
  have hunits : tiles.length * alignment ≤ (tiles.map fun block => (blocks block).size).sum := by
    have hcard := List.card_nsmul_le_sum (tiles.map fun block => (blocks block).size) alignment
      (by
        intro count hcount
        obtain ⟨block, hblock, rfl⟩ := List.mem_map.mp hcount
        exact h.tiled.alignment_le hblock)
    rwa [List.length_map] at hcard
  rw [Nat.le_div_iff_mul_le (by decide)]
  rw [Span.stop] at htotal
  have := Nat.mul_le_mul_right alignment hlength
  omega

theorem Formed.chain (h : Formed blocks region tiles) (index : Nat) :
    Listed blocks region (fun block => block ∈ tiles ∧ (blocks block).free = true) index
      (chain blocks region index) := by
  obtain ⟨list, hlist⟩ := h.binned index
  have hlength := h.length_le hlist.nodup fun block hin => ((hlist.mem block).mp hin).1.1
  have hchain : Region.chain blocks region index = list := by
    rw [Region.chain, hlist.head]
    exact hlist.linked.follow_eq hlength
  rwa [hchain]

theorem above_bit {index other : Nat} (h : other < 64) :
    ((~~~1#64) <<< index).getLsbD other = decide (index < other) := by
  rw [BitVec.getLsbD_shiftLeft, BitVec.getLsbD_not, BitVec.getLsbD_one]
  grind

theorem find_some (h : Formed blocks region tiles) {block : BlockRef}
    (hfind : find blocks region size = some block) :
    block ∈ tiles ∧ (blocks block).free = true ∧ size ≤ (blocks block).size := by
  rw [find] at hfind
  split at hfind
  · cases hfind
  dsimp only at hfind
  split at hfind
  · next found hbest =>
      obtain rfl := Option.some.inj hfind
      have hspec := best_some hbest (fun _ hnone => nomatch hnone)
      have hmem := ((h.chain _).mem _).mp (hspec.1.resolve_left (Option.some_ne_none _).symm)
      exact ⟨hmem.1.1, hmem.1.2, hspec.2⟩
  · split at hfind
    · cases hfind
    · next hnonzero =>
        have hspec := countrZero_spec hnonzero
        rw [BitVec.getLsbD_and, above_bit hspec.1, Bool.and_eq_true, decide_eq_true_eq] at hspec
        have hmem := h.binned.frees_of_head hfind
        refine ⟨hmem.1.1, hmem.1.2, Nat.le_of_lt ?_⟩
        apply lt_of_bin_lt
        rw [hmem.2]
        exact hspec.2.2

theorem find_none (h : Formed blocks region tiles) (hfind : find blocks region size = none)
    {block : BlockRef} (hblock : block ∈ tiles) (hfree : (blocks block).free = true) :
    (blocks block).size < size := by
  rw [find] at hfind
  split at hfind
  · next hlarge => exact Nat.lt_of_le_of_lt (h.le_freeBytes hblock hfree) hlarge
  dsimp only at hfind
  split at hfind
  · cases hfind
  next hbest =>
  have hown := (best_none hbest).2
  rcases Nat.lt_trichotomy (bin (blocks block).size) (bin size) with hlt | heq | hgt
  · exact lt_of_bin_lt hlt
  · exact hown block (((h.chain _).mem _).mpr ⟨⟨hblock, hfree⟩, heq⟩)
  · -- A later bin that is occupied has its bit set, so the scan cannot have given up.
    exfalso
    have hbin := h.bin_lt hblock
    have hbit := ((h.chain _).bit hbin).mpr
      (List.ne_nil_of_mem (((h.chain _).mem _).mpr ⟨⟨hblock, hfree⟩, rfl⟩))
    split at hfind
    · next hzero =>
        have hnone : (region.nonempty &&& (~~~1#64) <<< bin size).getLsbD (bin (blocks block).size) =
            false := by
          rw [hzero]
          exact BitVec.getLsbD_zero
        rw [BitVec.getLsbD_and, above_bit hbin, hbit] at hnone
        simp [hgt] at hnone
    · next hnonzero =>
        have hspec := countrZero_spec hnonzero
        rw [BitVec.getLsbD_and, Bool.and_eq_true] at hspec
        have hlist := ((h.chain _).bit hspec.1).mp hspec.2.1
        rw [(h.chain _).head, List.head?_eq_none_iff] at hfind
        exact hlist hfind

end Find

end Region

end Mmltk.Compile
