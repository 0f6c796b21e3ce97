import Mmltk.Compile.ArenaBank

namespace Mmltk.Compile

namespace Region

variable {blocks blocks' : Blocks} {region region' : Region} {tiles tiles' : List BlockRef}

theorem Formed.frame (h : Formed blocks region tiles)
    (hsame : ∀ block ∈ tiles, blocks' block = blocks block) : Formed blocks' region tiles where
  tiled := h.tiled.congr fun block hin => hsame block hin ▸ Relinked.rfl
  binned := by
    apply h.binned.congr rfl rfl
    · exact fun block => and_congr_right fun hin => by rw [hsame block hin]
    · intro block hfrees
      rw [hsame block hfrees.1]
      exact ⟨rfl, rfl, rfl⟩
  total := by
    rw [h.total]
    exact (freeTotal_congr fun block hin => by rw [hsame block hin]; exact ⟨rfl, rfl⟩).symm
  bounded := h.bounded

/-- A node lies in the extent it ends. -/
theorem Formed.tail_inside (h : Formed blocks region tiles) {address : Nat}
    (hin : BlockRef.tail address ∈ tiles) :
    region.bytes.data ≤ address ∧ address < region.bytes.stop := by
  cases hfree : (blocks (.tail address)).free with
  | false =>
      obtain ⟨id, hid⟩ := (h.tiled.tile _ hin).owned hfree
      cases hid
  | true =>
      have hplaced := BlockRef.tail.inj ((h.tiled.tile _ hin).placed hfree)
      have hinside := h.tiled.inside hin
      have hlarge := h.tiled.alignment_le hin
      have hunit : 0 < alignment := by decide
      omega

theorem Formed.tail_apart (h : Formed blocks region tiles)
    (h' : Formed blocks' region' tiles') {address : Nat}
    (hapart : region.bytes.stop ≤ region'.bytes.data ∨ region'.bytes.stop ≤ region.bytes.data)
    (hin : BlockRef.tail address ∈ tiles) : BlockRef.tail address ∉ tiles' := by
  intro hin'
  have hinside := h.tail_inside hin
  have hinside' := h'.tail_inside hin'
  omega

end Region

namespace CompileArenaBank

open Region

def charge (lease : ArenaLease) : Nat := if lease.oversized then 0 else lease.requested

variable {page : Nat} {bank : CompileArenaBank} {request : ArenaRequest}
  {tiles : Nat → List BlockRef}

structure Sound (bank : CompileArenaBank) (tiles : Nat → List BlockRef) : Prop where
  formed : ∀ ⦃index : Nat⦄ ⦃region : Region⦄, bank.regions[index]? = some region →
    Formed bank.blocks region (tiles index)
  apart : ∀ ⦃index other : Nat⦄ ⦃region region' : Region⦄, bank.regions[index]? = some region →
    bank.regions[other]? = some region' → index ≠ other →
      region.bytes.stop ≤ region'.bytes.data ∨ region'.bytes.stop ≤ region.bytes.data
  held : ∀ ⦃index : Nat⦄ ⦃region : Region⦄ (id : Nat), bank.regions[index]? = some region →
    (.lease id ∈ tiles index ↔
      ∃ lease ∈ bank.leases, lease.oversized = false ∧ lease.region = index ∧ lease.id = id)
  placed : ∀ lease ∈ bank.leases, lease.oversized = false →
    ∃ region, bank.regions[lease.region]? = some region ∧
      lease.memory.data = (bank.blocks (.lease lease.id)).data ∧
      lease.memory.size ≤ (bank.blocks (.lease lease.id)).size
  ids : (bank.leases.map ArenaLease.id).Nodup
  counted : bank.leased = (bank.leases.map charge).sum

theorem Sound.lease_unique (h : Sound bank tiles) {lease other : ArenaLease}
    (hlease : lease ∈ bank.leases) (hother : other ∈ bank.leases) (hid : lease.id = other.id) :
    lease = other := List.inj_on_of_nodup_map h.ids hlease hother hid

/-- A region reshaped for one lease leaves the other regions and leases as they are. -/
theorem Sound.reshape {index id leased exceptional : Nat} {region : Region}
    {after : Blocks × Region} {tiles' : List BlockRef}
    {leases : List ArenaLease} (h : Sound bank tiles)
    (hregion : bank.regions[index]? = some region)
    (hshape : Reshaped bank.blocks region (tiles index) id after tiles')
    (hid : ∀ lease ∈ bank.leases, lease.oversized = false → lease.id = id → lease.region = index)
    (hleases : ∀ lease : ArenaLease, lease.id ≠ id → (lease ∈ leases ↔ lease ∈ bank.leases))
    (hown : ∀ lease ∈ leases, lease.id = id → lease.oversized = false ∧ lease.region = index ∧
      lease.memory.data = (after.1 (.lease id)).data ∧
      lease.memory.size ≤ (after.1 (.lease id)).size)
    (hheld : .lease id ∈ tiles' ↔ ∃ lease ∈ leases, lease.id = id)
    (hids : (leases.map ArenaLease.id).Nodup) (hcounted : leased = (leases.map charge).sum) :
    Sound ⟨bank.regions.set index after.2, after.1, leases, leased, exceptional⟩
      (Function.update tiles index tiles') := by
  have hset : ∀ {other : Nat} {region' : Region},
      (bank.regions.set index after.2)[other]? = some region' →
        (other = index ∧ region' = after.2) ∨
          (other ≠ index ∧ bank.regions[other]? = some region') := by
    intro other region' hother
    by_cases heq : other = index
    · subst heq
      rw [List.getElem?_set_self (List.getElem?_eq_some_iff.mp hregion).1] at hother
      exact .inl ⟨rfl, (Option.some.inj hother).symm⟩
    · rw [List.getElem?_set_ne (Ne.symm heq)] at hother
      exact .inr ⟨heq, hother⟩
  have hnone : ∀ {other : Nat} {region' : Region}, other ≠ index →
      bank.regions[other]? = some region' → BlockRef.lease id ∉ tiles other := by
    intro other region' hne hother hin
    obtain ⟨lease, hlease, hplain, hplace, hsame⟩ := (h.held id hother).mp hin
    exact hne (hplace.symm.trans (hid lease hlease hplain hsame))
  have houtside : ∀ {other : Nat} {region' : Region}, other ≠ index →
      bank.regions[other]? = some region' →
        ∀ block ∈ tiles other, after.1 block = bank.blocks block := by
    intro other region' hne hother block hin
    have hapart := h.apart hother hregion hne
    cases block with
    | lease held =>
        have hheld_id : held ≠ id := fun heq => hnone hne hother (heq ▸ hin)
        have hold : BlockRef.lease held ∉ tiles index := by
          intro hboth
          obtain ⟨lease, hlease, -, hplace, hsame⟩ := (h.held held hother).mp hin
          obtain ⟨lease', hlease', -, hplace', hsame'⟩ := (h.held held hregion).mp hboth
          obtain rfl := h.lease_unique hlease hlease' (hsame.trans hsame'.symm)
          exact hne (hplace.symm.trans hplace')
        exact hshape.frame _ hold fun hnew => hold ((hshape.leases held hheld_id).mp hnew)
    | tail address =>
        exact hshape.frame _
          ((h.formed hother).tail_apart (h.formed hregion) hapart hin)
          ((h.formed hother).tail_apart hshape.formed (by rwa [hshape.bytes]) hin)
  have hbytes : ∀ {other : Nat} {region' : Region},
      (bank.regions.set index after.2)[other]? = some region' →
        ∃ old : Region, bank.regions[other]? = some old ∧ region'.bytes = old.bytes := by
    intro other region' hother
    rcases hset hother with ⟨rfl, rfl⟩ | ⟨-, hother⟩
    · exact ⟨region, hregion, hshape.bytes⟩
    · exact ⟨region', hother, rfl⟩
  refine ⟨?_, ?_, ?_, ?_, hids, hcounted⟩
  · intro other region' hother
    rcases hset hother with ⟨rfl, rfl⟩ | ⟨hne, hother⟩
    · rw [Function.update_self]
      exact hshape.formed
    · rw [Function.update_of_ne hne]
      exact (h.formed hother).frame (houtside hne hother)
  · intro place other region' region'' hplace hother hne
    obtain ⟨old, hold, hsame⟩ := hbytes hplace
    obtain ⟨old', hold', hsame'⟩ := hbytes hother
    rw [hsame, hsame']
    exact h.apart hold hold' hne
  · intro other region' held hother
    by_cases heq : held = id
    · subst heq
      rcases hset hother with ⟨rfl, -⟩ | ⟨hne, hother⟩
      · rw [Function.update_self, hheld]
        constructor
        · rintro ⟨lease, hlease, hsame⟩
          have hlease' := hown lease hlease hsame
          exact ⟨lease, hlease, hlease'.1, hlease'.2.1, hsame⟩
        · rintro ⟨lease, hlease, -, -, hsame⟩
          exact ⟨lease, hlease, hsame⟩
      · rw [Function.update_of_ne hne]
        refine iff_of_false (hnone hne hother) ?_
        rintro ⟨lease, hlease, -, hplace, hsame⟩
        exact hne (hplace.symm.trans (hown lease hlease hsame).2.1)
    · have hold : (BlockRef.lease held ∈ Function.update tiles index tiles' other ↔
          BlockRef.lease held ∈ tiles other) := by
        by_cases hplace : other = index
        · rw [hplace, Function.update_self]
          exact hshape.leases held heq
        · rw [Function.update_of_ne hplace]
      obtain ⟨region'', hregion'', -⟩ := hbytes hother
      rw [hold, h.held held hregion'']
      constructor
      · rintro ⟨lease, hlease, hrest⟩
        exact ⟨lease, (hleases lease (hrest.2.2 ▸ heq)).mpr hlease, hrest⟩
      · rintro ⟨lease, hlease, hrest⟩
        exact ⟨lease, (hleases lease (hrest.2.2 ▸ heq)).mp hlease, hrest⟩
  · intro lease hlease hplain
    by_cases heq : lease.id = id
    · obtain ⟨-, hplace, hdata, hsize⟩ := hown lease hlease heq
      rw [heq, hplace]
      exact ⟨after.2, List.getElem?_set_self (List.getElem?_eq_some_iff.mp hregion).1, hdata, hsize⟩
    · have hin := (hleases lease heq).mp hlease
      obtain ⟨region', hregion', hdata, hsize⟩ := h.placed lease hin hplain
      have htile := (h.held lease.id hregion').mpr ⟨lease, hin, hplain, rfl, rfl⟩
      have hkept : (after.1 (.lease lease.id)).data = (bank.blocks (.lease lease.id)).data ∧
          (after.1 (.lease lease.id)).size = (bank.blocks (.lease lease.id)).size := by
        by_cases hplace : lease.region = index
        · exact hshape.kept lease.id heq (hplace ▸ htile)
        · rw [houtside hplace hregion' _ htile]
          exact ⟨rfl, rfl⟩
      have hlt := (List.getElem?_eq_some_iff.mp hregion').1
      exact ⟨_, List.getElem?_eq_getElem (by simpa using hlt), hdata.trans hkept.1.symm,
        hkept.2.symm ▸ hsize⟩

/-! The search over the regions. -/

/-- What the loop has found comes from a region that admits the request. -/
structure Found (bank : CompileArenaBank) (request : ArenaRequest) (size : Nat)
    (selected : Selection) : Prop where
  region : bank.regions[selected.region]? = some selected.value
  admits : admits request selected.value = true
  block : selected.value.find bank.blocks size = some selected.block

theorem consider_some {size : Nat} {selected : Option Selection} {entry : Region × Nat}
    {after : Selection} (hentry : bank.regions[entry.2]? = some entry.1)
    (hfound : ∀ old, selected = some old → Found bank request size old)
    (h : bank.consider request size selected entry = some after) : Found bank request size after := by
  rw [consider] at h
  split at h
  · exact hfound after h
  · next hadmits =>
      split at h
      · exact hfound after h
      · next block hblock =>
          split at h
          · obtain rfl := Option.some.inj h
            simp only [Bool.or_eq_true, Bool.not_eq_true', not_or, Bool.not_eq_false] at hadmits
            exact ⟨hentry, hadmits.1, hblock⟩
          · exact hfound after h

theorem consider_none {size : Nat} {selected : Option Selection} {entry : Region × Nat}
    (h : bank.consider request size selected entry = none) :
    selected = none ∧
      (admits request entry.1 = true → entry.1.find bank.blocks size = none) := by
  cases selected with
  | some old =>
      rw [consider] at h
      repeat' split at h
      all_goals cases h
  | none =>
      refine ⟨rfl, fun hadmits => ?_⟩
      rw [consider] at h
      simp only [hadmits, Bool.not_true, Option.any_none, Bool.false_and, Bool.or_self,
        Bool.false_eq_true, if_false, Option.all_none, if_true] at h
      split at h
      · next hfind => exact hfind
      · cases h

theorem select_some {size : Nat} {selected : Selection}
    (h : bank.select request size = some selected) : Found bank request size selected := by
  have hrun : ∀ old, bank.select request size = some old → Found bank request size old := by
    apply List.foldlRecOn (motive := fun start => ∀ old, start = some old →
      Found bank request size old)
    · exact fun old hold => absurd hold (Option.some_ne_none old).symm
    · exact fun start hfound entry hentry old hold =>
        consider_some (List.mem_zipIdx_iff_getElem?.mp hentry) hfound hold
  exact hrun selected h

theorem select_none {size : Nat} (h : bank.select request size = none) {index : Nat}
    {region : Region} (hregion : bank.regions[index]? = some region)
    (hadmits : admits request region = true) : region.find bank.blocks size = none := by
  have hentry : (region, index) ∈ bank.regions.zipIdx := List.mem_zipIdx_iff_getElem?.mpr hregion
  obtain ⟨left, right, hsplit⟩ := List.append_of_mem hentry
  rw [select, hsplit, List.foldl_append, List.foldl_cons] at h
  by_contra hfind
  refine List.foldlRecOn (motive := fun found => found ≠ none) right _ ?_ ?_ h
  · exact fun hnone => hfind ((consider_none hnone).2 hadmits)
  · exact fun start hstart entry _ hnone => hstart (consider_none hnone).1

theorem le_normalCapacity {region : Region} (hregion : region ∈ bank.regions)
    (hadmits : admits request region = true) :
    region.bytes.size ≤ bank.normalCapacity request := by
  obtain ⟨left, right, hsplit⟩ := List.append_of_mem hregion
  rw [normalCapacity, hsplit, List.foldl_append, List.foldl_cons, if_pos hadmits]
  apply List.foldlRecOn (motive := fun largest => region.bytes.size ≤ largest)
  · exact Nat.le_max_right _ _
  · intro largest hle value _
    split
    · exact hle.trans (Nat.le_max_left _ _)
    · exact hle

/-- The request as the arena reserves it. -/
def alignedBytes (request : ArenaRequest) : Nat :=
  (request.bytes + (alignment - 1)) / alignment * alignment

theorem le_alignedBytes : request.bytes ≤ alignedBytes request := by
  rw [alignedBytes, alignment]
  omega

theorem Sound.bytes_aligned (h : Sound bank tiles) {region : Region}
    (hregion : region ∈ bank.regions) :
    ∃ units, region.bytes.size = alignment * units ∧ alignment * units < 2 ^ 64 := by
  obtain ⟨index, hindex⟩ := List.getElem?_of_mem hregion
  have hformed := h.formed hindex
  obtain ⟨units, hunits⟩ := hformed.tiled.spans.aligned fun block hin =>
    (hformed.tiled.tile block hin).aligned
  have hbounded := hformed.bounded
  rw [Span.stop] at hunits
  exact ⟨units, by omega, by omega⟩

theorem Sound.reservationBytes (h : Sound bank tiles) (hbytes : request.bytes ≠ 0)
    (hfit : bank.normalFit request = true) :
    bank.reservationBytes page request = some (alignedBytes request) := by
  have hle : request.bytes ≤ bank.normalCapacity request := of_decide_eq_true hfit
  have hcapacity : bank.normalCapacity request + (alignment - 1) < 2 ^ 64 := by
    apply List.foldlRecOn (motive := fun largest => largest + (alignment - 1) < 2 ^ 64)
    · decide
    · intro largest hlargest region hregion
      obtain ⟨units, hunits, hbounded⟩ := h.bytes_aligned hregion
      rw [alignment] at *
      split
      · omega
      · exact hlargest
  have hsmall : request.bytes + (alignment - 1) < 2 ^ 64 := by omega
  rw [CompileArenaBank.reservationBytes, if_neg hbytes, if_pos hfit, if_pos hsmall]
  rfl

/-- What exceeds every region is looked for in vain. -/
theorem Sound.select_exceptional (h : Sound bank tiles) (hpage : 0 < page)
    (hfit : bank.normalFit request = false) {extent : Nat}
    (hextent : pageRoundedBytes page request.bytes = some extent) :
    bank.select request extent = none := by
  cases hselect : bank.select request extent with
  | none => rfl
  | some selected =>
      have hfound := select_some hselect
      have hformed := h.formed hfound.region
      have hspec := find_some hformed hfound.block
      have hregion := hformed.size_le hspec.1
      have hcapacity := le_normalCapacity (List.mem_of_getElem? hfound.region) hfound.admits
      have hlarge : bank.normalCapacity request < request.bytes := by
        simpa [normalFit] using hfit
      rw [pageRoundedBytes] at hextent
      split at hextent
      · cases hextent
      · obtain rfl := Option.some.inj hextent
        have hround := Nat.lt_div_mul_add (a := request.bytes + page - 1) hpage
        omega

/-! The steps of a bank. -/

theorem Sound.acquire (h : Sound bank tiles) (hpage : 0 < page) {exceptional : Bool} {id : Nat}
    (hid : id ∉ bank.leases.map ArenaLease.id) {after : CompileArenaBank}
    {lease : Option ArenaLease}
    (hacquire : bank.acquire page request exceptional id = some (after, lease)) :
    ∃ tiles', Sound after tiles' := by
  rw [CompileArenaBank.acquire] at hacquire
  split at hacquire
  · obtain ⟨rfl, -⟩ := Prod.mk.inj (Option.some.inj hacquire)
    exact ⟨tiles, h⟩
  next hbytes =>
  obtain ⟨extent, hextent, hacquire⟩ := Option.bind_eq_some_iff.mp hacquire
  split at hacquire
  · cases hacquire
  split at hacquire
  · next selected hselect =>
      obtain ⟨rfl, -⟩ := Prod.mk.inj (Option.some.inj hacquire)
      have hfound := select_some hselect
      have hformed := h.formed hfound.region
      obtain ⟨hin, hfree, hsize⟩ := find_some hformed hfound.block
      have hfit : bank.normalFit request = true := by
        cases hfit : bank.normalFit request with
        | true => rfl
        | false =>
            rw [CompileArenaBank.reservationBytes, if_neg hbytes, hfit] at hextent
            rw [h.select_exceptional hpage hfit hextent] at hselect
            cases hselect
      obtain rfl := Option.some.inj ((h.reservationBytes hbytes hfit).symm.trans hextent)
      have hlarge := @le_alignedBytes request
      have hfresh : ∀ lease ∈ bank.leases, lease.id ≠ id := fun lease hlease heq =>
        hid (heq ▸ List.mem_map_of_mem hlease)
      have hnone : BlockRef.lease id ∉ tiles selected.region := by
        intro hheld
        obtain ⟨lease, hlease, -, -, hsame⟩ := (h.held id hfound.region).mp hheld
        exact hfresh lease hlease hsame
      obtain ⟨tiles', hshape, hheld, hdata, hwhole⟩ :=
        hformed.acquire hnone hin hfree (Nat.lt_of_lt_of_le (Nat.pos_of_ne_zero hbytes) hlarge)
          ⟨_, Nat.mul_comm _ _⟩ hsize
      refine ⟨_, h.reshape hfound.region hshape ?_ ?_ ?_ ?_ ?_ ?_⟩
      · exact fun lease hlease _ heq => absurd heq (hfresh lease hlease)
      · intro lease hne
        rw [List.mem_cons, or_iff_right]
        rintro rfl
        exact hne rfl
      · intro lease hlease heq
        obtain rfl := (List.mem_cons.mp hlease).resolve_right fun hold => hfresh lease hold heq
        exact ⟨rfl, rfl, hdata.symm, hlarge.trans_eq hwhole.symm⟩
      · exact iff_of_true hheld ⟨_, List.mem_cons_self, rfl⟩
      · exact List.nodup_cons.mpr ⟨hid, h.ids⟩
      · rw [List.map_cons, List.sum_cons, ← h.counted, Nat.add_comm]
        rfl
  · split at hacquire
    · cases hacquire
    · obtain ⟨rfl, -⟩ := Prod.mk.inj (Option.some.inj hacquire)
      refine ⟨tiles, h.formed, h.apart, ?_, ?_, List.nodup_cons.mpr ⟨hid, h.ids⟩, ?_⟩
      · intro index region held hregion
        rw [h.held held hregion]
        simp
      · intro lease hlease hplain
        rcases List.mem_cons.mp hlease with rfl | hold
        · cases hplain
        · exact h.placed lease hold hplain
      · rw [List.map_cons, List.sum_cons, ← h.counted]
        exact (Nat.zero_add _).symm

theorem Sound.release (h : Sound bank tiles) {lease : ArenaLease}
    (hlease : lease ∈ bank.leases) : ∃ tiles', Sound (bank.release lease) tiles' := by
  have hids : ((bank.leases.erase lease).map ArenaLease.id).Nodup :=
    h.ids.sublist (List.erase_sublist.map _)
  have hnodup : bank.leases.Nodup := h.ids.of_map _
  have hcharge := List.sum_map_erase charge hlease
  have hkept : ∀ other : ArenaLease, other.id ≠ lease.id →
      (other ∈ bank.leases.erase lease ↔ other ∈ bank.leases) := by
    intro other hne
    exact List.mem_erase_of_ne fun heq => hne (congrArg ArenaLease.id heq)
  have hgone : ∀ other ∈ bank.leases.erase lease, other.id ≠ lease.id := by
    intro other hother heq
    obtain rfl := h.lease_unique (List.mem_of_mem_erase hother) hlease heq
    exact hnodup.not_mem_erase hother
  rw [CompileArenaBank.release]
  split
  · next hoversized =>
      refine ⟨tiles, h.formed, h.apart, ?_, ?_, hids, ?_⟩
      · intro index region held hregion
        rw [h.held held hregion]
        apply exists_congr
        intro other
        apply and_congr_left
        rintro ⟨hplain, -⟩
        refine (List.mem_erase_of_ne ?_).symm
        rintro rfl
        rw [hoversized] at hplain
        cases hplain
      · exact fun other hother => h.placed other (List.mem_of_mem_erase hother)
      · rw [charge, if_pos hoversized, Nat.zero_add] at hcharge
        exact h.counted.trans hcharge.symm
  · next hplain =>
      obtain ⟨region, hregion, -⟩ := h.placed lease hlease (Bool.eq_false_iff.mpr hplain)
      have hin := (h.held lease.id hregion).mpr
        ⟨lease, hlease, Bool.eq_false_iff.mpr hplain, rfl, rfl⟩
      obtain ⟨tiles', hshape, hnone⟩ := (h.formed hregion).release hin
      rw [hregion]
      refine ⟨_, h.reshape hregion hshape ?_ hkept ?_ ?_ hids ?_⟩
      · intro other hother _ heq
        rw [h.lease_unique hother hlease heq]
      · exact fun other hother heq => absurd heq (hgone other hother)
      · refine iff_of_false hnone ?_
        rintro ⟨other, hother, heq⟩
        exact hgone other hother heq
      · rw [charge, if_neg hplain] at hcharge
        have hcounted := h.counted
        omega

/-- When a nonempty request is served. -/
def Serves (page : Nat) (bank : CompileArenaBank) (tiles : Nat → List BlockRef)
    (request : ArenaRequest) (exceptional : Bool) : Prop :=
  bank.exceptional = 0 ∧
    if bank.normalFit request then
      ∃ (index : Nat) (region : Region) (block : BlockRef), bank.regions[index]? = some region ∧
        admits request region = true ∧ block ∈ tiles index ∧
        (bank.blocks block).free = true ∧ alignedBytes request ≤ (bank.blocks block).size
    else exceptional = true ∧ bank.leased = 0 ∧ (pageRoundedBytes page request.bytes).isSome

theorem Sound.acquire_isSome (h : Sound bank tiles) (hpage : 0 < page)
    (hbytes : request.bytes ≠ 0) (exceptional : Bool) (id : Nat) :
    (bank.acquire page request exceptional id).isSome = true ↔
      Serves page bank tiles request exceptional := by
  rw [CompileArenaBank.acquire, if_neg hbytes, Serves]
  cases hfit : bank.normalFit request with
  | true =>
      rw [h.reservationBytes hbytes hfit, Option.bind_some]
      by_cases hactive : bank.exceptional = 0
      · rw [if_neg (not_not_intro hactive)]
        cases hselect : bank.select request (alignedBytes request) with
        | some selected =>
            have hfound := select_some hselect
            obtain ⟨hin, hfree, hsize⟩ := find_some (h.formed hfound.region) hfound.block
            exact iff_of_true rfl ⟨hactive, _, _, _, hfound.region, hfound.admits, hin, hfree, hsize⟩
        | none =>
            refine iff_of_false (by simp) ?_
            rintro ⟨-, index, region, block, hregion, hadmits, hin, hfree, hsize⟩
            have hnone := find_none (h.formed hregion) (select_none hselect hregion hadmits) hin
              hfree
            omega
      · rw [if_pos hactive]
        exact iff_of_false (by simp) fun hboth => hactive hboth.1
  | false =>
      rw [CompileArenaBank.reservationBytes, if_neg hbytes, hfit]
      cases hextent : pageRoundedBytes page request.bytes with
      | none => simp
      | some extent =>
          have hselect := h.select_exceptional hpage hfit hextent
          by_cases hactive : bank.exceptional = 0
          · cases exceptional with
            | true => by_cases hleased : bank.leased = 0 <;>
                simp [hactive, hselect, hleased]
            | false => simp [hactive, hselect]
          · simp [hactive]

theorem Sound.acquire_of_fits (h : Sound bank tiles) (hfits : bank.fits page request = true)
    (exceptional : Bool) (id : Nat) :
    (bank.acquire page request exceptional id).isSome = true := by
  rw [fits] at hfits
  rw [CompileArenaBank.acquire]
  split at hfits
  · cases hfits
  next hactive =>
  split at hfits
  · next hzero => rw [if_pos hzero]; rfl
  next hbytes =>
  split at hfits
  · next hfit =>
      rw [h.reservationBytes hbytes hfit, Option.any_some] at hfits
      obtain ⟨selected, hselect⟩ := Option.isSome_iff_exists.mp hfits
      rw [if_neg hbytes, h.reservationBytes hbytes hfit, Option.bind_some, if_neg hactive, hselect]
      rfl
  · cases hfits

end CompileArenaBank

end Mmltk.Compile
