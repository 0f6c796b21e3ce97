import Mathlib.Algebra.Order.BigOperators.Group.List
import Mathlib.Algebra.Ring.Int.Defs
import Mmltk.Coconut.PoolHosts

namespace Mmltk.Coconut

/-! What each call of the pool does to the blocks it keeps. -/

/-- The pool and the live blocks, but for the cap, which a call that moves a block may exceed before
it returns. -/
structure ParquetPool.Keeps (pool : ParquetPool) (blocks : List Block) : Prop where
  hosts : Hosts pool.windows blocks
  kept : ∀ window ∈ pool.quiesced, window.allocations ≠ 0
  live : pool.live = (blocks.map fun block => (block.size : Int)).sum

namespace ParquetPool

variable {pool after : ParquetPool} {blocks blocks' : List Block} {block : Block} {window : Window}
  {size alignment replaced oldSize : Int} {address : Nat} {refusal : Refusal}

theorem Keeps.perm (h : pool.Keeps blocks) (hperm : blocks.Perm blocks') : pool.Keeps blocks' where
  hosts := h.hosts.perm hperm
  kept := h.kept
  live := by rw [h.live, (hperm.map _).sum_eq]

/-- What `allocate` grants. -/
structure Grants (pool after : ParquetPool) (size alignment replaced : Int) (address : Nat) :
    Prop where
  size_nonneg : 0 ≤ size
  capped : size ≤ parquetPoolBytes - (pool.live - replaced)
  aligned : alignment.toNat ∣ address
  address_pos : 0 < address
  live : after.live = pool.live + size

theorem windows_active (h : pool.active = some window) : pool.windows = pool.quiesced ++ [window] := by
  rw [windows, h, Option.toList_some]

theorem allocateLocked_ok (h : pool.Keeps blocks)
    (hcall : pool.allocateLocked size alignment replaced = (after, .ok address)) :
    after.Keeps (⟨address, size.toNat⟩ :: blocks) ∧
      pool.Grants after size alignment replaced address := by
  rw [allocateLocked] at hcall
  split at hcall
  · cases hcall
  next window hactive =>
    split at hcall
    · cases hcall
    next hvalid =>
      split at hcall
      · cases hcall
      next hcapped =>
        simp only [not_or, not_lt, not_le] at hvalid
        split at hcall
        · next offset taken htake =>
            simp only [Prod.mk.injEq, Except.ok.injEq] at hcall
            obtain ⟨rfl, rfl⟩ := hcall
            have hhosts := h.hosts
            rw [windows_active hactive] at hhosts
            have hplaced := hhosts.placed window (by simp)
            have haccounts := hhosts.accounts window (by simp)
            have hspan := Window.take_span htake
            obtain ⟨htaken, haligned⟩ := haccounts.take (by omega) (physical_pos size) htake
            have hend := htaken.tiles.used_le List.mem_cons_self (physical_pos size)
            have hpositive := physical_pos size
            have hholds : window.holds (window.begin + offset) = true := by
              rw [Window.holds_iff]
              rw [hspan.2] at hend
              simp only at hend
              omega
            have hcast : ((size.toNat : Nat) : Int) = size := Int.toNat_of_nonneg hvalid.1
            refine ⟨⟨?_, h.kept, ?_⟩, hvalid.1, by omega, haligned, by
              have := hplaced.begin_pos
              omega, rfl⟩
            · refine hhosts.replace hspan ?_ ?_ ?_
              · rw [Window.used_cons_of_holds hholds, hcast]
                simpa using htaken
              · intro away haway
                exact Window.used_cons_of_not_holds (haway.not_holds hholds)
              · intro block hblock
                cases List.mem_cons.mp hblock with
                | inl heq =>
                    rw [heq]
                    exact .inr hholds
                | inr hmem => exact .inl hmem
            · rw [List.map_cons, List.sum_cons, ← h.live]
              simp only
              omega
        · next hnone =>
            split at hcall <;> cases hcall

theorem allocateLocked_error
    (hcall : pool.allocateLocked size alignment replaced = (after, .error refusal)) :
    ∃ extent, after = { pool with fragmentedExtent := extent } := by
  rw [allocateLocked] at hcall
  split at hcall
  · exact ⟨pool.fragmentedExtent, (congrArg Prod.fst hcall).symm⟩
  split at hcall
  · exact ⟨pool.fragmentedExtent, (congrArg Prod.fst hcall).symm⟩
  split at hcall
  · exact ⟨pool.fragmentedExtent, (congrArg Prod.fst hcall).symm⟩
  split at hcall
  · cases hcall
  split at hcall
  · exact ⟨_, (congrArg Prod.fst hcall).symm⟩
  · exact ⟨pool.fragmentedExtent, (congrArg Prod.fst hcall).symm⟩

theorem release_hosts {front back : List Window}
    (h : Hosts (front ++ window :: back) (block :: blocks))
    (hholds : window.holds block.address = true) :
    Hosts (front ++ window.release (block.address - window.begin) (physical block.size) :: back)
      blocks := by
  have haccounts := h.accounts window (by simp)
  rw [Window.used_cons_of_holds hholds] at haccounts
  refine h.replace ⟨rfl, rfl⟩ haccounts.release ?_ ?_
  · intro away haway
    exact (Window.used_cons_of_not_holds (haway.not_holds hholds)).symm
  · exact fun other hother => .inl (List.mem_cons_of_mem _ hother)

theorem release_kept {front rest back : List Window}
    (h : Hosts (front ++ window :: rest ++ back) (block :: blocks))
    (hholds : window.holds block.address = true) :
    let released := window.release (block.address - window.begin) (physical block.size)
    Hosts (front ++ (if released.allocations = 0 then rest else released :: rest) ++ back)
      blocks := by
  intro released
  have hreleased : Hosts (front ++ released :: (rest ++ back)) blocks :=
    release_hosts (by simpa using h) hholds
  split
  · next hempty =>
      have haccounts := hreleased.accounts released (by simp)
      rw [haccounts.counted, List.length_eq_zero_iff] at hempty
      simpa using hreleased.remove hempty
  · simpa using hreleased

/-- The search of `free` among the quiesced windows. -/
theorem freeQuiesced_spec {quiesced back : List Window} (front : List Window)
    (h : Hosts (front ++ quiesced ++ back) (block :: blocks))
    (hkept : ∀ window ∈ quiesced, window.allocations ≠ 0) :
    match freeQuiesced block.address (physical block.size) quiesced with
    | some rest => Hosts (front ++ rest ++ back) blocks ∧
        ∀ window ∈ rest, window.allocations ≠ 0
    | none => ∀ window ∈ quiesced, window.holds block.address = false := by
  induction quiesced generalizing front with
  | nil => exact fun window hwindow => absurd hwindow List.not_mem_nil
  | cons window rest ih =>
      rw [freeQuiesced]
      by_cases hholds : window.holds block.address = true
      · rw [if_pos hholds]
        refine ⟨release_kept h hholds, ?_⟩
        intro kept hmem
        split at hmem
        · exact hkept kept (List.mem_cons_of_mem _ hmem)
        · next hnonempty =>
            cases List.mem_cons.mp hmem with
            | inl heq =>
                rw [heq]
                exact hnonempty
            | inr hrest => exact hkept kept (List.mem_cons_of_mem _ hrest)
      · rw [if_neg hholds]
        have hnext := ih (front ++ [window]) (by simpa using h)
          fun kept hmem => hkept kept (List.mem_cons_of_mem _ hmem)
        cases hfound : freeQuiesced block.address (physical block.size) rest with
        | none =>
            rw [hfound] at hnext
            exact List.forall_mem_cons.mpr ⟨Bool.eq_false_of_not_eq_true hholds, hnext⟩
        | some left =>
            rw [hfound] at hnext
            refine ⟨by simpa using hnext.1, List.forall_mem_cons.mpr ⟨?_, hnext.2⟩⟩
            exact hkept window List.mem_cons_self

theorem freeLocked_spec (h : pool.Keeps (block :: blocks)) :
    ∃ after, pool.freeLocked block.address block.size = some after ∧ after.Keeps blocks ∧
      after.live = pool.live - block.size := by
  have hlive : pool.live - block.size = (blocks.map fun block => (block.size : Int)).sum := by
    rw [h.live, List.map_cons, List.sum_cons]
    omega
  obtain ⟨window, hwindow, hholds⟩ := h.hosts.held block List.mem_cons_self
  have hbegin := (h.hosts.placed window hwindow).begin_pos
  have haddress : block.address ≠ 0 := by
    have hwithin := (Window.holds_iff.mp hholds).1
    omega
  have hhosts : Hosts ([] ++ pool.quiesced ++ pool.active.toList) (block :: blocks) := h.hosts
  have hsearch := freeQuiesced_spec [] hhosts h.kept
  rw [freeLocked, if_neg haddress]
  cases hfound : freeQuiesced block.address (physical block.size) pool.quiesced with
  | some rest =>
      rw [hfound] at hsearch
      exact ⟨_, rfl, ⟨by simpa [windows] using hsearch.1, hsearch.2, hlive⟩, rfl⟩
  | none =>
      rw [hfound] at hsearch
      cases hactive : pool.active with
      | none =>
          rw [windows, hactive, Option.toList_none, List.append_nil] at hwindow
          rw [hsearch window hwindow] at hholds
          cases hholds
      | some active =>
          rw [windows_active hactive] at hwindow
          have hsame : window = active := by
            cases List.mem_append.mp hwindow with
            | inl hmem =>
                rw [hsearch window hmem] at hholds
                cases hholds
            | inr hlast => exact List.mem_singleton.mp hlast
          subst hsame
          have hhosts := h.hosts
          rw [windows_active hactive] at hhosts
          refine ⟨_, if_pos hholds, ⟨?_, h.kept, hlive⟩, rfl⟩
          exact release_hosts hhosts hholds

/-- `Reallocate` in place. -/
theorem resizeActive_spec (h : pool.Keeps (block :: blocks)) (hsize : 0 ≤ size)
    (hcall : pool.resizeActive block.address block.size size alignment = some after) :
    after.Keeps (⟨block.address, size.toNat⟩ :: blocks) ∧ alignment.toNat ∣ block.address ∧
      after.live = pool.live + (size - block.size) := by
  rw [resizeActive] at hcall
  split at hcall
  · cases hcall
  next window hactive =>
    split at hcall
    · next hguard =>
        obtain ⟨resized, hresize, rfl⟩ := Option.map_eq_some_iff.mp hcall
        have hhosts := h.hosts
        rw [windows_active hactive] at hhosts
        have hholds := hguard.2.1
        have haccounts := hhosts.accounts window (by simp)
        rw [Window.used_cons_of_holds hholds] at haccounts
        have hspan := Window.resize_span hresize
        have hresized := haccounts.resize (physical_pos size) hresize
        have hcast : ((size.toNat : Nat) : Int) = size := Int.toNat_of_nonneg hsize
        refine ⟨⟨?_, h.kept, ?_⟩, Nat.dvd_of_mod_eq_zero hguard.2.2, rfl⟩
        · refine hhosts.replace hspan ?_ ?_ ?_
          · have hheld : window.holds (⟨block.address, size.toNat⟩ : Block).address = true := hholds
            rw [Window.used_cons_of_holds hheld, hcast]
            exact hresized
          · intro away haway
            have hnot := haway.not_holds hholds
            have hneither : away.holds (⟨block.address, size.toNat⟩ : Block).address = false := hnot
            rw [Window.used_cons_of_not_holds hneither, Window.used_cons_of_not_holds hnot]
          · intro other hother
            cases List.mem_cons.mp hother with
            | inl heq =>
                rw [heq]
                exact .inr hholds
            | inr hmem => exact .inl (List.mem_cons_of_mem _ hmem)
        · have hlive := h.live
          rw [List.map_cons, List.sum_cons] at hlive ⊢
          simp only
          omega
    · cases hcall

/-- What `Reallocate` leaves of a block and of the others. -/
structure Moves (pool after : ParquetPool) (memory memory' : Memory) (block : Block)
    (blocks : List Block) (size alignment : Int) (address : Nat) : Prop where
  keeps : after.Keeps (⟨address, size.toNat⟩ :: blocks)
  capped : after.live ≤ parquetPoolBytes
  aligned : alignment.toNat ∣ address
  content : ∀ index < min block.size size.toNat,
    memory' (address + index) = memory (block.address + index)
  frame : ∀ other ∈ blocks, ∀ index < other.size,
    memory' (other.address + index) = memory (other.address + index)

theorem physical_ge (size : Nat) : size ≤ physical size := by
  rw [physical, Int.toNat_natCast]
  exact Nat.le_max_right ..

/-- The copy of a shorter prefix, between blocks that do not meet. -/
theorem memcpy_content {target source count index : Nat} (memory : Memory) (h : index < count) :
    memcpy target source count memory (target + index) = memory (source + index) := by
  rw [memcpy, if_pos (by omega), Nat.add_sub_cancel_left]

theorem memcpy_frame {target source count : Nat} (memory : Memory)
    (h : address < target ∨ target + count ≤ address) :
    memcpy target source count memory address = memory address := by
  rw [memcpy, if_neg (by omega)]

theorem reallocate_spec (h : pool.Keeps (block :: blocks)) (memory : Memory)
    (size alignment : Int) :
    ∃ after memory' result,
      pool.reallocate memory block.address block.size size alignment =
        some (after, memory', result) ∧
      match result with
      | .ok address => pool.Moves after memory memory' block blocks size alignment address
      | .error _ => memory' = memory ∧ ∃ extent, after = { pool with fragmentedExtent := extent } := by
  rw [reallocate]
  simp only
  split
  · exact ⟨_, _, _, rfl, rfl, 0, rfl⟩
  next hvalid =>
  split
  · exact ⟨_, _, _, rfl, rfl, 0, rfl⟩
  split
  · exact ⟨_, _, _, rfl, rfl, 0, rfl⟩
  next hcapped =>
  have hsize : 0 ≤ size := by omega
  have hbegun : pool.beginCall.Keeps (block :: blocks) := ⟨h.hosts, h.kept, h.live⟩
  split
  · next resized hresized =>
      obtain ⟨hkeeps, haligned, hlive⟩ := resizeActive_spec hbegun hsize hresized
      have hmoves : pool.Moves resized memory memory block blocks size alignment block.address :=
        ⟨hkeeps, by omega, haligned, fun _ _ => rfl, fun _ _ _ _ => rfl⟩
      exact ⟨resized, memory, .ok block.address, rfl, hmoves⟩
  · split
    · next after refusal hcall =>
        obtain ⟨extent, rfl⟩ := allocateLocked_error hcall
        exact ⟨_, _, _, rfl, rfl, extent, rfl⟩
    · next granted address hcall =>
        obtain ⟨hgranted, hgrants⟩ := allocateLocked_ok hbegun hcall
        have hboth := hgranted.perm (List.Perm.swap ..)
        obtain ⟨after, hfreed, hkeeps, hlive⟩ := freeLocked_spec hboth
        have hcast : ((size.toNat : Nat) : Int) = size := Int.toNat_of_nonneg hsize
        have hcount : (min (block.size : Int) size).toNat = min block.size size.toNat := by omega
        refine ⟨after, _, .ok address, by rw [hfreed]; rfl, ?_⟩
        refine Moves.mk hkeeps ?_ hgrants.aligned ?_ ?_
        · rw [hlive, hgrants.live]
          omega
        · intro index hindex
          rw [if_pos (by omega), hcount]
          exact memcpy_content memory hindex
        · intro other hother index hindex
          split
          · refine memcpy_frame memory ?_
            have happart := hgranted.hosts.blocks_apart (List.mem_cons_of_mem _ hother)
            have hother := physical_ge other.size
            have hnew := physical_ge size.toNat
            simp only at happart
            rw [hcount]
            omega
          · rfl

/-! The memory of the windows that a call leaves. -/

/-- Every window of the second list lies where one of the first does. -/
def Within (before after : List Window) : Prop :=
  ∀ window ∈ after, ∃ earlier ∈ before, earlier.SameSpan window

theorem within_refl (windows : List Window) : Within windows windows :=
  fun window hwindow => ⟨window, hwindow, rfl, rfl⟩

theorem within_trans {first second third : List Window} (h : Within first second)
    (hnext : Within second third) : Within first third := by
  intro window hwindow
  obtain ⟨middle, hmiddle, hspan⟩ := hnext window hwindow
  obtain ⟨earlier, hearlier, hfirst⟩ := h middle hmiddle
  exact ⟨earlier, hearlier, hspan.1.trans hfirst.1, hspan.2.trans hfirst.2⟩

theorem within_active {other : Window} (hactive : pool.active = some window)
    (hspan : window.SameSpan other) (hquiesced : after.quiesced = pool.quiesced)
    (hother : after.active = some other) : Within pool.windows after.windows := by
  intro kept hkept
  rw [windows_active hother, hquiesced] at hkept
  rw [windows_active hactive]
  cases List.mem_append.mp hkept with
  | inl hmem => exact ⟨kept, List.mem_append_left _ hmem, rfl, rfl⟩
  | inr hlast =>
      rw [List.mem_singleton.mp hlast]
      exact ⟨window, by simp, hspan⟩

theorem allocateLocked_within :
    Within pool.windows (pool.allocateLocked size alignment replaced).1.windows := by
  rw [allocateLocked]
  split
  · exact within_refl _
  next window hactive =>
  split
  · exact within_refl _
  split
  · exact within_refl _
  split
  · next offset taken htake => exact within_active hactive (Window.take_span htake) rfl rfl
  split <;> exact within_refl _

theorem freeQuiesced_within {count : Nat} {quiesced rest : List Window}
    (h : freeQuiesced address count quiesced = some rest) : Within quiesced rest := by
  induction quiesced generalizing rest with
  | nil => cases h
  | cons window others ih =>
      rw [freeQuiesced] at h
      split at h
      · simp only [Option.some.injEq] at h
        subst h
        intro kept hkept
        split at hkept
        · exact ⟨kept, List.mem_cons_of_mem _ hkept, rfl, rfl⟩
        · cases List.mem_cons.mp hkept with
          | inl heq => exact ⟨window, List.mem_cons_self, by rw [heq]; exact ⟨rfl, rfl⟩⟩
          | inr hmem => exact ⟨kept, List.mem_cons_of_mem _ hmem, rfl, rfl⟩
      · obtain ⟨left, hleft, rfl⟩ := Option.map_eq_some_iff.mp h
        intro kept hkept
        cases List.mem_cons.mp hkept with
        | inl heq => exact ⟨window, List.mem_cons_self, by rw [heq]; exact ⟨rfl, rfl⟩⟩
        | inr hmem =>
            obtain ⟨earlier, hearlier, hspan⟩ := ih hleft kept hmem
            exact ⟨earlier, List.mem_cons_of_mem _ hearlier, hspan⟩

theorem freeLocked_within (h : pool.freeLocked address size = some after) :
    Within pool.windows after.windows := by
  rw [freeLocked] at h
  split at h
  · cases h
    exact within_refl _
  split at h
  · next quiesced hfound =>
      cases h
      intro kept hkept
      cases List.mem_append.mp hkept with
      | inl hmem =>
          obtain ⟨earlier, hearlier, hspan⟩ := freeQuiesced_within hfound kept hmem
          exact ⟨earlier, List.mem_append_left _ hearlier, hspan⟩
      | inr hmem => exact ⟨kept, List.mem_append_right _ hmem, rfl, rfl⟩
  split at h
  · cases h
  next window hactive =>
  split at h
  · cases h
    have hspan : window.SameSpan (window.release (address - window.begin) (physical size)) :=
      ⟨rfl, rfl⟩
    exact within_active hactive hspan rfl rfl
  · cases h

theorem resizeActive_within
    (h : pool.resizeActive address oldSize size alignment = some after) :
    Within pool.windows after.windows := by
  rw [resizeActive] at h
  split at h
  · cases h
  next window hactive =>
  split at h
  · obtain ⟨resized, hresize, rfl⟩ := Option.map_eq_some_iff.mp h
    exact within_active hactive (Window.resize_span hresize) rfl rfl
  · cases h

theorem reallocate_within {memory memory' : Memory} {result : Except Refusal Nat}
    (h : pool.reallocate memory address oldSize size alignment = some (after, memory', result)) :
    Within pool.windows after.windows := by
  rw [reallocate] at h
  simp only at h
  split at h
  · cases h
    exact within_refl _
  split at h
  · cases h
    exact within_refl _
  split at h
  · cases h
    exact within_refl _
  split at h
  · next resized hresized =>
      cases h
      have hwithin : Within pool.beginCall.windows after.windows := resizeActive_within hresized
      exact hwithin
  have hallocated : Within pool.beginCall.windows
      (pool.beginCall.allocateLocked size alignment oldSize).1.windows := allocateLocked_within
  split at h
  · next refused refusal hcall =>
      cases h
      rw [hcall] at hallocated
      exact hallocated
  · next granted next hcall =>
      obtain ⟨freed, hfreed, heq⟩ := Option.map_eq_some_iff.mp h
      cases heq
      rw [hcall] at hallocated
      exact within_trans hallocated (freeLocked_within hfreed)

theorem quiesce_within : Within pool.windows pool.quiesce.windows := by
  rw [quiesce]
  split
  · exact within_refl _
  next window hactive =>
  intro kept hkept
  refine ⟨kept, ?_, rfl, rfl⟩
  simp only [windows, Option.toList_none, List.append_nil] at hkept
  rw [windows_active hactive]
  split at hkept
  · exact List.mem_append_left _ hkept
  · exact hkept

theorem Keeps.live_nonneg (h : pool.Keeps blocks) : 0 ≤ pool.live := by
  rw [h.live]
  exact List.sum_nonneg (by simp)

theorem singleBit_le {value : Nat} (hbit : hasSingleBit value = true) (hlt : value < 2 ^ 63) :
    value ≤ 2 ^ 62 := by
  simp only [hasSingleBit, Bool.and_eq_true, bne_iff_ne, ne_eq, beq_iff_eq] at hbit
  obtain ⟨place, rfl⟩ := (Nat.and_sub_one_eq_zero_iff_isPowerOfTwo hbit.1).mp hbit.2
  have hplace : place < 63 := (Nat.pow_lt_pow_iff_right (by decide)).mp hlt
  exact Nat.pow_le_pow_right (by decide) (Nat.le_of_lt_succ hplace)

theorem envelope_ok {bit count : Nat} (hsize : window.size < 2 ^ 63) (hbit : bit ≤ 2 ^ 62)
    (hcount : count ≤ parquetPoolBytes) :
    envelope window bit count = .ok (window.size + (count + (bit - 1))) := by
  rw [parquetPoolBytes] at hcount
  rw [envelope, checkedAdd, if_neg (by omega)]
  exact if_neg (by omega)

theorem allocate_contiguousFit_iff (h : pool.Keeps blocks) (halignment : alignment < 2 ^ 63) :
    (pool.allocate size alignment).2 = .error (.capacityError contiguousFit) ↔
      ∃ window, pool.active = some window ∧ 0 ≤ size ∧ 0 < alignment ∧
        hasSingleBit alignment.toNat = true ∧ pool.live + size ≤ parquetPoolBytes ∧
        ∀ range ∈ window.free, ¬ window.Room alignment.toNat (physical size) range := by
  have hlive := h.live_nonneg
  cases hactive : pool.active with
  | none => simp [allocate, beginCall, allocateLocked, hactive]
  | some window =>
      have hplaced := h.hosts.placed window (by simp [windows_active hactive])
      simp only [allocate, beginCall, allocateLocked, hactive, Option.some.injEq, exists_eq_left']
      split
      · next hinvalid =>
          simp only [Except.error.injEq, reduceCtorEq, false_iff, not_and]
          intro hsize hpositive hbit
          simp only [hbit, not_true_eq_false, or_false] at hinvalid
          omega
      next hvalid =>
      simp only [not_or, not_lt, not_le, not_not] at hvalid
      split
      · next hover =>
          simp only [Except.error.injEq, reduceCtorEq, false_iff, not_and]
          intros
          omega
      next hcapped =>
      have hpositive : 0 < alignment.toNat := by omega
      have hnone : window.take alignment.toNat (physical size) = none ↔
          ∀ range ∈ window.free, ¬ window.Room alignment.toNat (physical size) range :=
        Window.take_eq_none_iff hpositive
      cases htake : window.take alignment.toNat (physical size) with
      | some result =>
          simp only [reduceCtorEq, false_iff, not_and]
          intro _ _ _ _ hroom
          rw [hnone.mpr hroom] at htake
          cases htake
      | none =>
          have hbit : alignment.toNat ≤ 2 ^ 62 := singleBit_le hvalid.2.2 (by omega)
          have hcount : physical size ≤ parquetPoolBytes := by
            rw [physical]
            rw [parquetPoolBytes] at hcapped ⊢
            omega
          simp only [envelope_ok hplaced.size_lt hbit hcount, true_iff]
          exact ⟨hvalid.1, hvalid.2.1, hvalid.2.2, by omega, hnone.mp htake⟩

end ParquetPool

end Mmltk.Coconut
