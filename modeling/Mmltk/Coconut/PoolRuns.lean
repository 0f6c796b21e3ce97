import Mmltk.Coconut.PoolCalls

namespace Mmltk.Coconut

open Mmltk.Foundation

/-! The pool together with the blocks its callers hold and the memory they write. -/

structure Heap where
  pool : ParquetPool
  blocks : List Block
  memory : ParquetPool.Memory

namespace Heap

def initial (memory : ParquetPool.Memory) : Heap := ⟨.empty, [], memory⟩

/-- `close` is `quiesce`; `store` is a byte a caller or another party writes. -/
inductive Operation where
  | allocate (size alignment : Int)
  | reallocate (block : Block) (size alignment : Int)
  | free (block : Block)
  | resume (begin size : Nat)
  | quiesce
  | beginCall
  | store (address : Nat) (byte : UInt8)

/-- `none` is `std::terminate`. -/
def perform (heap : Heap) : Operation → Option Heap
  | .allocate size alignment =>
      match heap.pool.allocate size alignment with
      | (pool, .ok address) =>
          some { heap with pool, blocks := ⟨address, size.toNat⟩ :: heap.blocks }
      | (pool, .error _) => some { heap with pool }
  | .reallocate block size alignment =>
      match heap.pool.reallocate heap.memory block.address block.size size alignment with
      | none => none
      | some (pool, memory, .ok address) =>
          some ⟨pool, ⟨address, size.toNat⟩ :: heap.blocks.erase block, memory⟩
      | some (pool, memory, .error _) => some ⟨pool, heap.blocks, memory⟩
  | .free block =>
      (heap.pool.free block.address block.size).map fun pool =>
        { heap with pool, blocks := heap.blocks.erase block }
  | .resume begin size =>
      match heap.pool.resume begin size with
      | .ok pool => some { heap with pool }
      | .error _ => some heap
  | .quiesce => some { heap with pool := heap.pool.quiesce }
  | .beginCall => some { heap with pool := heap.pool.beginCall }
  | .store address byte => some { heap with memory := Function.update heap.memory address byte }

/-- Callers give back what they hold; the memory of a window is an object of the process that no
other window uses. -/
def Allowed (heap : Heap) : Operation → Prop
  | .allocate _ alignment => alignment < 2 ^ 63
  | .reallocate block _ alignment => block ∈ heap.blocks ∧ alignment < 2 ^ 63
  | .free block => block ∈ heap.blocks
  | .resume begin size => heap.pool.active = none → 0 < begin ∧ size < 2 ^ 63 ∧
      ∀ window ∈ heap.pool.windows,
        begin + size ≤ window.begin ∨ window.begin + window.size ≤ begin
  | _ => True

inductive Reachable : Heap → Prop
  | initial (memory : ParquetPool.Memory) : Reachable (initial memory)
  | step {heap after : Heap} {operation : Operation} (h : Reachable heap)
      (hallowed : heap.Allowed operation) (hstep : heap.perform operation = some after) :
      Reachable after

end Heap

/-- The pool and the live blocks, between calls. -/
structure Heap.Sound (heap : Heap) : Prop where
  keeps : heap.pool.Keeps heap.blocks
  capped : heap.pool.live ≤ parquetPoolBytes

namespace Heap

variable {heap after : Heap} {operation : Operation} {pool : ParquetPool} {window : Window}

theorem sound_initial (memory : ParquetPool.Memory) : (initial memory).Sound where
  keeps :=
    { hosts := ⟨by simp [initial, ParquetPool.empty, ParquetPool.windows],
        by simp [initial, ParquetPool.empty, ParquetPool.windows], List.Pairwise.nil,
        by simp [initial]⟩
      kept := by simp [initial, ParquetPool.empty]
      live := rfl }
  capped := (by decide : (0 : Int) ≤ parquetPoolBytes)

theorem whole_accounts {begin size : Nat} (hsize : 0 < size) :
    (⟨begin, size, [(0, size)], 0, 0⟩ : Window).Accounts [] where
  tiles := Tiling.whole hsize
  positive := by simp
  covered := by simp
  counted := rfl

theorem Sound.resume {begin size : Nat} (h : heap.Sound)
    (hallowed : heap.Allowed (.resume begin size))
    (hcall : heap.pool.resume begin size = .ok pool) : Sound { heap with pool } := by
  rw [ParquetPool.resume] at hcall
  split at hcall
  · cases hcall
    exact h
  split at hcall
  · cases hcall
  next hactive hlarge =>
    cases hcall
    have hnone : heap.pool.active = none := by simpa using hactive
    obtain ⟨hbegin, hsize, hapart⟩ := hallowed hnone
    have hwindows : heap.pool.windows = heap.pool.quiesced := by
      rw [ParquetPool.windows, hnone, Option.toList_none, List.append_nil]
    have hhosts := h.keeps.hosts
    rw [hwindows] at hhosts hapart
    rw [parquetPoolBytes] at hlarge
    exact ⟨⟨hhosts.append ⟨hbegin, hsize⟩ (fun kept hkept => (hapart kept hkept).symm)
      (whole_accounts (by omega)), h.keeps.kept, h.keeps.live⟩, h.capped⟩

theorem Sound.quiesce (h : heap.Sound) : Sound { heap with pool := heap.pool.quiesce } := by
  rw [ParquetPool.quiesce]
  split
  · exact h
  next window hactive =>
    have hhosts := h.keeps.hosts
    rw [ParquetPool.windows_active hactive] at hhosts
    refine ⟨⟨?_, ?_, h.keeps.live⟩, h.capped⟩
    · simp only [ParquetPool.windows, Option.toList_none, List.append_nil]
      split
      · next hempty =>
          have haccounts := hhosts.accounts window (by simp)
          rw [haccounts.counted, List.length_eq_zero_iff] at hempty
          simpa using hhosts.remove hempty
      · exact hhosts
    · intro kept hkept
      simp only at hkept
      split at hkept
      · exact h.keeps.kept kept hkept
      · next hblocks =>
          cases List.mem_append.mp hkept with
          | inl hmem => exact h.keeps.kept kept hmem
          | inr hlast =>
              rw [List.mem_singleton.mp hlast]
              exact hblocks

/-- No call of a caller that keeps its side reaches `std::terminate`, and each keeps the pool sound. -/
theorem Sound.perform (h : heap.Sound) (hallowed : heap.Allowed operation) :
    ∃ after, heap.perform operation = some after ∧ after.Sound := by
  cases operation with
  | allocate size alignment =>
      rw [Heap.perform]
      have hbegun : heap.pool.beginCall.Keeps heap.blocks :=
        ⟨h.keeps.hosts, h.keeps.kept, h.keeps.live⟩
      split
      · next pool address hcall =>
          obtain ⟨hkeeps, hgrants⟩ := ParquetPool.allocateLocked_ok hbegun hcall
          refine ⟨_, rfl, hkeeps, ?_⟩
          have hlive : pool.live = heap.pool.live + size := hgrants.live
          have hcapped : size ≤ parquetPoolBytes - (heap.pool.live - 0) := hgrants.capped
          simp only [hlive]
          omega
      · next pool refusal hcall =>
          obtain ⟨extent, rfl⟩ := ParquetPool.allocateLocked_error hcall
          exact ⟨_, rfl, ⟨h.keeps.hosts, h.keeps.kept, h.keeps.live⟩, h.capped⟩
  | reallocate block size alignment =>
      have hfirst := h.keeps.perm (List.perm_cons_erase hallowed.1)
      obtain ⟨pool, memory, result, hcall, hresult⟩ :=
        ParquetPool.reallocate_spec hfirst heap.memory size alignment
      rw [Heap.perform, hcall]
      cases result with
      | ok address => exact ⟨_, rfl, hresult.keeps, hresult.capped⟩
      | error refusal =>
          obtain ⟨rfl, extent, rfl⟩ := hresult
          exact ⟨_, rfl, ⟨h.keeps.hosts, h.keeps.kept, h.keeps.live⟩, h.capped⟩
  | free block =>
      have hfirst := h.keeps.perm (List.perm_cons_erase hallowed)
      obtain ⟨pool, hcall, hkeeps, hlive⟩ := ParquetPool.freeLocked_spec hfirst
      rw [Heap.perform, ParquetPool.free, hcall]
      refine ⟨_, rfl, hkeeps, ?_⟩
      have hcapped := h.capped
      simp only [hlive]
      omega
  | resume begin size =>
      rw [Heap.perform]
      split
      · next pool hcall => exact ⟨_, rfl, h.resume hallowed hcall⟩
      · exact ⟨_, rfl, h⟩
  | quiesce => exact ⟨_, rfl, h.quiesce⟩
  | beginCall => exact ⟨_, rfl, ⟨h.keeps.hosts, h.keeps.kept, h.keeps.live⟩, h.capped⟩
  | store address byte => exact ⟨_, rfl, h.keeps, h.capped⟩

theorem Reachable.sound (h : Reachable heap) : heap.Sound := by
  induction h with
  | initial memory => exact sound_initial memory
  | step h hallowed hstep ih =>
      obtain ⟨after, hperform, hsound⟩ := ih.perform hallowed
      rw [hstep] at hperform
      cases hperform
      exact hsound

theorem perform_within (hstep : heap.perform operation = some after)
    (hresume : ∀ begin size, operation ≠ .resume begin size) :
    ParquetPool.Within heap.pool.windows after.pool.windows := by
  cases operation with
  | allocate size alignment =>
      have hwithin : ParquetPool.Within heap.pool.beginCall.windows
          (heap.pool.allocate size alignment).1.windows := ParquetPool.allocateLocked_within
      rw [Heap.perform] at hstep
      split at hstep
      · next hcall =>
          cases hstep
          rw [hcall] at hwithin
          exact hwithin
      · next hcall =>
          cases hstep
          rw [hcall] at hwithin
          exact hwithin
  | reallocate block size alignment =>
      rw [Heap.perform] at hstep
      split at hstep
      · cases hstep
      · next hcall =>
          cases hstep
          exact ParquetPool.reallocate_within hcall
      · next hcall =>
          cases hstep
          exact ParquetPool.reallocate_within hcall
  | free block =>
      obtain ⟨pool, hcall, rfl⟩ := Option.map_eq_some_iff.mp hstep
      exact ParquetPool.freeLocked_within hcall
  | resume begin size => exact absurd rfl (hresume begin size)
  | quiesce =>
      cases hstep
      exact ParquetPool.quiesce_within
  | beginCall =>
      cases hstep
      exact ParquetPool.within_refl _
  | store address byte =>
      cases hstep
      exact ParquetPool.within_refl _

theorem resume_windows {begin size : Nat} (hcall : heap.pool.resume begin size = .ok pool)
    (hwindow : window ∈ heap.pool.windows) : window ∈ pool.windows := by
  rw [ParquetPool.resume] at hcall
  split at hcall
  · cases hcall
    exact hwindow
  split at hcall
  · cases hcall
  next hactive hlarge =>
    cases hcall
    have hnone : heap.pool.active = none := by simpa using hactive
    rw [ParquetPool.windows, hnone, Option.toList_none, List.append_nil] at hwindow
    exact List.mem_append_left _ hwindow

/-- A window leaves the pool only when no block is left in it. -/
theorem Sound.window_kept (h : heap.Sound) (hafter : after.Sound)
    (hstep : heap.perform operation = some after) (hwindow : window ∈ heap.pool.windows) :
    (∃ kept ∈ after.pool.windows, window.SameSpan kept) ∨
      ∀ block ∈ after.blocks, window.holds block.address = false := by
  by_cases hresume : ∃ begin size, operation = .resume begin size
  · obtain ⟨begin, size, rfl⟩ := hresume
    left
    rw [Heap.perform] at hstep
    split at hstep
    · next pool hcall =>
        cases hstep
        exact ⟨window, resume_windows hcall hwindow, rfl, rfl⟩
    · cases hstep
      exact ⟨window, hwindow, rfl, rfl⟩
  · have hwithin := perform_within hstep fun begin size heq => hresume ⟨begin, size, heq⟩
    by_cases hblock : ∃ block ∈ after.blocks, window.holds block.address = true
    · obtain ⟨block, hmem, hholds⟩ := hblock
      obtain ⟨kept, hkept, hkeeps⟩ := hafter.keeps.hosts.held block hmem
      obtain ⟨earlier, hearlier, hspan⟩ := hwithin kept hkept
      rw [hspan.holds_eq] at hkeeps
      have hsame : earlier = window := by
        by_contra hne
        have happart := h.keeps.hosts.apart.forall hearlier hwindow hne
        rw [happart.not_holds hkeeps] at hholds
        cases hholds
      exact .inl ⟨kept, hkept, hsame ▸ hspan⟩
    · refine .inr fun block hmem => Bool.eq_false_of_not_eq_true fun hholds => ?_
      exact hblock ⟨block, hmem, hholds⟩

theorem Sound.allocate (h : heap.Sound) (size alignment : Int) :
    match heap.pool.allocate size alignment with
    | (after, .ok address) => alignment.toNat ∣ address ∧
        after.Keeps (⟨address, size.toNat⟩ :: heap.blocks)
    | (after, .error _) => ∃ extent, after = { heap.pool with fragmentedExtent := extent } := by
  have hbegun : heap.pool.beginCall.Keeps heap.blocks :=
    ⟨h.keeps.hosts, h.keeps.kept, h.keeps.live⟩
  split
  · next after address hcall =>
      obtain ⟨hkeeps, hgrants⟩ := ParquetPool.allocateLocked_ok hbegun hcall
      exact ⟨hgrants.aligned, hkeeps⟩
  · next after refusal hcall =>
      obtain ⟨extent, rfl⟩ := ParquetPool.allocateLocked_error hcall
      exact ⟨extent, rfl⟩

/-- In every reachable state the windows are tiled by what is free and what is held, and every call
keeps them so: no block is lost, moved bytes survive, and a refused call changes no accounting. -/
theorem pool_accounted (h : Reachable heap) :
    heap.Sound ∧
    (∀ operation, heap.Allowed operation → ∃ after, heap.perform operation = some after ∧
      after.Sound ∧ ∀ window ∈ heap.pool.windows,
        (∃ kept ∈ after.pool.windows, window.SameSpan kept) ∨
          ∀ block ∈ after.blocks, window.holds block.address = false) ∧
    (∀ size alignment : Int, match heap.pool.allocate size alignment with
      | (after, .ok address) => alignment.toNat ∣ address ∧
          after.Keeps (⟨address, size.toNat⟩ :: heap.blocks)
      | (after, .error _) => ∃ extent, after = { heap.pool with fragmentedExtent := extent }) ∧
    (∀ size alignment : Int, alignment < 2 ^ 63 →
      ((heap.pool.allocate size alignment).2 =
          .error (.capacityError ParquetPool.contiguousFit) ↔
        ∃ window, heap.pool.active = some window ∧ 0 ≤ size ∧ 0 < alignment ∧
          hasSingleBit alignment.toNat = true ∧ heap.pool.live + size ≤ parquetPoolBytes ∧
          ∀ range ∈ window.free, ¬ window.Room alignment.toNat (physical size) range)) ∧
    ∀ block ∈ heap.blocks, ∀ size alignment : Int, ∃ after memory result,
      heap.pool.reallocate heap.memory block.address block.size size alignment =
        some (after, memory, result) ∧
      match result with
      | .ok address => heap.pool.Moves after heap.memory memory block (heap.blocks.erase block)
          size alignment address
      | .error _ => memory = heap.memory ∧
          ∃ extent, after = { heap.pool with fragmentedExtent := extent } := by
  have hsound := h.sound
  refine ⟨hsound, ?_, fun size alignment => hsound.allocate size alignment, ?_, ?_⟩
  · intro operation hallowed
    obtain ⟨after, hstep, hafter⟩ := hsound.perform hallowed
    exact ⟨after, hstep, hafter, fun window hwindow =>
      hsound.window_kept hafter hstep hwindow⟩
  · intro size alignment halignment
    exact ParquetPool.allocate_contiguousFit_iff hsound.keeps halignment
  · intro block hblock size alignment
    have hfirst := hsound.keeps.perm (List.perm_cons_erase hblock)
    exact ParquetPool.reallocate_spec hfirst heap.memory size alignment

/-- One window with a block of hundred bytes. -/
def single (memory : ParquetPool.Memory) : Heap where
  pool :=
    { quiesced := []
      active := some ⟨4096, parquetPoolBytes, [(100, parquetPoolBytes - 100)], 100, 1⟩
      live := 100, peak := 100, total := 100, allocations := 1, fragmentedExtent := 0 }
  blocks := [⟨4096, 100⟩]
  memory

theorem pool_accounted_single : (single fun _ => 0).Sound := by
  have hresumed : Reachable
      { initial (fun _ => 0) with
        pool := { ParquetPool.empty with
          active := some ⟨4096, parquetPoolBytes, [(0, parquetPoolBytes)], 0, 0⟩ } } := by
    have hallowed : (initial fun _ => 0).Allowed (.resume 4096 parquetPoolBytes) :=
      fun _ => ⟨by decide, by decide, fun _ hmem => nomatch hmem⟩
    exact .step (.initial _) hallowed rfl
  have hreachable : Reachable (single fun _ => 0) := by
    have hallowed : Allowed
        { initial (fun _ => 0) with
          pool := { ParquetPool.empty with
            active := some ⟨4096, parquetPoolBytes, [(0, parquetPoolBytes)], 0, 0⟩ } }
        (.allocate 100 64) := (by decide : (64 : Int) < 2 ^ 63)
    exact .step hresumed hallowed rfl
  exact (pool_accounted hreachable).1

end Heap

end Mmltk.Coconut
