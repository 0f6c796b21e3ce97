import Mmltk.Coconut.PoolWindow

namespace Mmltk.Coconut

open Mmltk.Foundation

/-! Blocks, by their address and logical size, and the windows they lie in. -/

structure Block where
  address : Nat
  size : Nat
  deriving DecidableEq, Repr

/-- The ranges that blocks take of a window. -/
def Window.used (window : Window) (blocks : List Block) : List Tile :=
  (blocks.filter fun block => window.holds block.address).map fun block =>
    (block.address - window.begin, physical block.size)

structure Window.Placed (window : Window) : Prop where
  begin_pos : 0 < window.begin
  size_lt : window.size < 2 ^ 63

def Window.Apart (window other : Window) : Prop :=
  window.begin + window.size ≤ other.begin ∨ other.begin + other.size ≤ window.begin

instance : Std.Symm Window.Apart := ⟨fun _ _ h => Or.symm h⟩

namespace Window

variable {window other resized : Window} {blocks : List Block} {block : Block}

theorem holds_iff {address : Nat} : window.holds address = true ↔
    window.begin ≤ address ∧ address < window.begin + window.size := by
  simp only [holds, Bool.and_eq_true, decide_eq_true_eq]
  omega

theorem SameSpan.holds_eq (h : window.SameSpan other) : other.holds = window.holds := by
  funext address
  rw [holds, holds, h.1, h.2]

theorem SameSpan.used_eq (h : window.SameSpan other) : other.used blocks = window.used blocks := by
  rw [used, used, h.holds_eq, h.1]

theorem Apart.not_holds {address : Nat} (h : window.Apart other)
    (hholds : window.holds address = true) : other.holds address = false := by
  rw [holds_iff] at hholds
  rw [← Bool.not_eq_true, holds_iff]
  rw [Apart] at h
  omega

@[simp] theorem used_cons_of_holds (h : window.holds block.address = true) :
    window.used (block :: blocks) =
      (block.address - window.begin, physical block.size) :: window.used blocks := by
  simp [used, h]

@[simp] theorem used_cons_of_not_holds (h : window.holds block.address = false) :
    window.used (block :: blocks) = window.used blocks := by
  simp [used, h]

theorem used_perm {blocks' : List Block} (h : blocks.Perm blocks') :
    (window.used blocks).Perm (window.used blocks') :=
  (h.filter _).map _

theorem Accounts.perm {used used' : List Tile} (h : window.Accounts used) (hperm : used.Perm used') :
    window.Accounts used' where
  tiles := h.tiles.perm hperm
  positive range hrange := h.positive range (hperm.mem_iff.mpr hrange)
  covered range hrange := h.covered range (hperm.mem_iff.mpr hrange)
  counted := by rw [h.counted, hperm.length_eq]

theorem mem_used {range : Tile} : range ∈ window.used blocks ↔
    ∃ block ∈ blocks, window.holds block.address = true ∧
      range = (block.address - window.begin, physical block.size) := by
  rw [used, List.mem_map]
  constructor
  · rintro ⟨block, hblock, rfl⟩
    obtain ⟨hmem, hholds⟩ := List.mem_filter.mp hblock
    exact ⟨block, hmem, hholds, rfl⟩
  · rintro ⟨block, hmem, hholds, rfl⟩
    exact ⟨block, List.mem_filter.mpr ⟨hmem, hholds⟩, rfl⟩

/-- A window holds the blocks that start in it to their end. -/
theorem Accounts.block_le (h : window.Accounts (window.used blocks)) (hblock : block ∈ blocks)
    (hholds : window.holds block.address = true) :
    block.address + physical block.size ≤ window.begin + window.size := by
  have hmem : (block.address - window.begin, physical block.size) ∈ window.used blocks :=
    mem_used.mpr ⟨block, hblock, hholds, rfl⟩
  have hle := h.tiles.used_le hmem (physical_pos _)
  have hbegin := (holds_iff.mp hholds).1
  simp only at hle
  omega

end Window

/-! The windows of a pool and the blocks in them. -/

structure Hosts (windows : List Window) (blocks : List Block) : Prop where
  accounts : ∀ window ∈ windows, window.Accounts (window.used blocks)
  placed : ∀ window ∈ windows, window.Placed
  apart : windows.Pairwise Window.Apart
  held : ∀ block ∈ blocks, ∃ window ∈ windows, window.holds block.address = true

namespace Hosts

variable {front back windows : List Window} {window other : Window} {blocks blocks' : List Block}
  {block : Block}

theorem apart_of_mem (h : Hosts (front ++ window :: back) blocks)
    (hother : other ∈ front ++ back) : window.Apart other := by
  obtain ⟨-, htail, hcross⟩ := List.pairwise_append.mp h.apart
  cases List.mem_append.mp hother with
  | inl hfront => exact Std.Symm.symm _ _ (hcross other hfront window List.mem_cons_self)
  | inr hback => exact (List.pairwise_cons.mp htail).1 other hback

theorem perm (h : Hosts windows blocks) (hperm : blocks.Perm blocks') : Hosts windows blocks' where
  accounts window hwindow := (h.accounts window hwindow).perm (Window.used_perm hperm)
  placed := h.placed
  apart := h.apart
  held block hblock := h.held block (hperm.mem_iff.mpr hblock)

/-- A window changes what it holds, the others keep theirs. -/
theorem replace (h : Hosts (front ++ window :: back) blocks) (hspan : window.SameSpan other)
    (haccounts : other.Accounts (window.used blocks'))
    (hframe : ∀ away, window.Apart away → away.used blocks' = away.used blocks)
    (hheld : ∀ block ∈ blocks', block ∈ blocks ∨ window.holds block.address = true) :
    Hosts (front ++ other :: back) blocks' := by
  have hcases : ∀ kept ∈ front ++ other :: back, kept = other ∨ kept ∈ front ++ back := by
    intro kept hkept
    simp only [List.mem_append, List.mem_cons] at hkept ⊢
    tauto
  have hkeep : ∀ kept ∈ front ++ back, kept ∈ front ++ window :: back := by
    intro kept hkept
    simp only [List.mem_append, List.mem_cons] at hkept ⊢
    tauto
  constructor
  · intro kept hkept
    cases hcases kept hkept with
    | inl heq =>
        rw [heq, hspan.used_eq]
        exact haccounts
    | inr hmem =>
        rw [hframe kept (h.apart_of_mem hmem)]
        exact h.accounts kept (hkeep kept hmem)
  · intro kept hkept
    cases hcases kept hkept with
    | inl heq =>
        have hplaced := h.placed window (by simp)
        rw [heq]
        exact ⟨hspan.1 ▸ hplaced.begin_pos, hspan.2 ▸ hplaced.size_lt⟩
    | inr hmem => exact h.placed kept (hkeep kept hmem)
  · obtain ⟨hfront, htail, hcross⟩ := List.pairwise_append.mp h.apart
    obtain ⟨hnext, hback⟩ := List.pairwise_cons.mp htail
    refine List.pairwise_append.mpr ⟨hfront, List.pairwise_cons.mpr ⟨?_, hback⟩, ?_⟩
    · intro later hlater
      have hapart := hnext later hlater
      rw [Window.Apart, hspan.1, hspan.2]
      exact hapart
    · intro earlier hearlier later hlater
      cases List.mem_cons.mp hlater with
      | inl heq =>
          have hapart := hcross earlier hearlier window List.mem_cons_self
          rw [heq, Window.Apart, hspan.1, hspan.2]
          exact hapart
      | inr hmem => exact hcross earlier hearlier later (List.mem_cons_of_mem _ hmem)
  · intro block hblock
    have hother : window.holds block.address = true →
        ∃ kept ∈ front ++ other :: back, kept.holds block.address = true := by
      intro hholds
      exact ⟨other, by simp, by rw [hspan.holds_eq, hholds]⟩
    cases hheld block hblock with
    | inr hholds => exact hother hholds
    | inl hold =>
        obtain ⟨kept, hkept, hholds⟩ := h.held block hold
        by_cases heq : kept = window
        · exact hother (heq ▸ hholds)
        · refine ⟨kept, ?_, hholds⟩
          simp only [List.mem_append, List.mem_cons] at hkept ⊢
          tauto

theorem remove (h : Hosts (front ++ window :: back) blocks) (hempty : window.used blocks = []) :
    Hosts (front ++ back) blocks where
  accounts kept hkept := h.accounts kept (by
    simp only [List.mem_append, List.mem_cons] at hkept ⊢
    tauto)
  placed kept hkept := h.placed kept (by
    simp only [List.mem_append, List.mem_cons] at hkept ⊢
    tauto)
  apart := h.apart.sublist (by simp)
  held block hblock := by
    obtain ⟨kept, hkept, hholds⟩ := h.held block hblock
    refine ⟨kept, ?_, hholds⟩
    have hne : kept ≠ window := by
      rintro rfl
      have hmem := Window.mem_used.mpr ⟨block, hblock, hholds, rfl⟩
      rw [hempty] at hmem
      exact List.not_mem_nil hmem
    simp only [List.mem_append, List.mem_cons] at hkept ⊢
    tauto

theorem append (h : Hosts windows blocks) (hplaced : window.Placed)
    (hapart : ∀ kept ∈ windows, kept.Apart window) (haccounts : window.Accounts []) :
    Hosts (windows ++ [window]) blocks where
  accounts kept hkept := by
    cases List.mem_append.mp hkept with
    | inl hmem => exact h.accounts kept hmem
    | inr hlast =>
        rw [List.mem_singleton.mp hlast]
        have hnone : window.used blocks = [] := by
          rw [List.eq_nil_iff_forall_not_mem]
          intro range hrange
          obtain ⟨block, hblock, hholds, -⟩ := Window.mem_used.mp hrange
          obtain ⟨kept, hmem, hkeeps⟩ := h.held block hblock
          have hfalse := (hapart kept hmem).not_holds hkeeps
          rw [hholds] at hfalse
          cases hfalse
        rw [hnone]
        exact haccounts
  placed kept hkept := by
    cases List.mem_append.mp hkept with
    | inl hmem => exact h.placed kept hmem
    | inr hlast =>
        rw [List.mem_singleton.mp hlast]
        exact hplaced
  apart := by
    refine List.pairwise_append.mpr ⟨h.apart, List.pairwise_singleton .., ?_⟩
    intro earlier hearlier later hlater
    rw [List.mem_singleton.mp hlater]
    exact hapart earlier hearlier
  held block hblock := by
    obtain ⟨kept, hkept, hholds⟩ := h.held block hblock
    exact ⟨kept, List.mem_append_left _ hkept, hholds⟩

/-- No two blocks meet. -/
theorem blocks_apart (h : Hosts windows (block :: blocks)) {other : Block} (hother : other ∈ blocks) :
    block.address + physical block.size ≤ other.address ∨
      other.address + physical other.size ≤ block.address := by
  obtain ⟨window, hwindow, hholds⟩ := h.held block List.mem_cons_self
  obtain ⟨away, haway, hkeeps⟩ := h.held other (List.mem_cons_of_mem _ hother)
  have haccounts := h.accounts window hwindow
  have hend := haccounts.block_le List.mem_cons_self hholds
  have hawayEnd := (h.accounts away haway).block_le (List.mem_cons_of_mem _ hother) hkeeps
  have hbegin := Window.holds_iff.mp hholds
  have hawayBegin := Window.holds_iff.mp hkeeps
  by_cases hsame : window.holds other.address = true
  · have htiles := haccounts.tiles
    rw [Window.used_cons_of_holds hholds] at htiles
    have hmem : (other.address - window.begin, physical other.size) ∈ window.used blocks :=
      Window.mem_used.mpr ⟨other, hother, hsame, rfl⟩
    have happart := htiles.used_away hmem (physical_pos _) (physical_pos _)
    have hwithin := Window.holds_iff.mp hsame
    simp only at happart
    omega
  · have hne : window ≠ away := by
      rintro rfl
      exact hsame hkeeps
    have happart : window.Apart away := h.apart.forall hwindow haway hne
    rw [Window.Apart] at happart
    omega

end Hosts

end Mmltk.Coconut
