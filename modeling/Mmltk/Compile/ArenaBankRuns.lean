import Mathlib.Algebra.BigOperators.Ring.List
import Mathlib.Algebra.Ring.Nat
import Mmltk.Compile.ArenaBankSpec

namespace Mmltk.Compile

namespace CompileArenaBank

open Region

variable {page : Nat} {bank : CompileArenaBank}

/-! Construction. -/

structure Ready (shapes : List Shape) : Prop where
  sized : ∀ shape ∈ shapes, alignment ∣ shape.bytes.size ∧ shape.bytes.size < 2 ^ 64
  apart : shapes.Pairwise fun left right =>
    left.bytes.stop ≤ right.bytes.data ∨ right.bytes.stop ≤ left.bytes.data

theorem empty_formed (blocks : Blocks) {shape : Shape} (hpos : 0 < shape.bytes.size)
    (haligned : alignment ∣ shape.bytes.size) (hsmall : shape.bytes.size < 2 ^ 64) :
    Formed
      ((empty shape).insert blocks shape.bytes.data shape.bytes.size none none).1
      ((empty shape).insert blocks shape.bytes.data shape.bytes.size none none).2
      [node shape.bytes.data shape.bytes.size] := by
  have hempty : Binned blocks (empty shape) fun _ => False := fun index =>
    ⟨[], trivial, rfl, List.nodup_nil, by simp, by simp [empty]⟩
  have hlists := @insert_binned _ _ _ shape.bytes.data shape.bytes.size none none hempty
    (fun h => h) (by simp) (by simp)
  have hself := @insert_self blocks (empty shape) shape.bytes.data shape.bytes.size none none
    (by simp) (by simp) (by simp [empty])
  refine ⟨⟨?_, ?_, ?_, List.isChain_singleton _⟩, ?_, ?_, hsmall⟩
  · exact ⟨congrArg ArenaBlock.previous hself, congrArg ArenaBlock.next hself, trivial⟩
  · exact ⟨congrArg ArenaBlock.data hself, by rw [hself]; rfl⟩
  · intro block hin
    rw [List.mem_singleton.mp hin, hself]
    exact ⟨hpos, haligned, fun _ => rfl, nofun⟩
  · refine hlists.congr rfl rfl (fun block => ?_) fun _ _ => ⟨rfl, rfl, rfl⟩
    rw [List.mem_singleton, false_or]
    apply and_iff_left_of_imp
    rintro rfl
    rw [hself]
  · rw [freeTotal_singleton, hself]
    rfl

theorem addRegion_sound {blocks : Blocks} {regions : List Region} {shape : Shape}
    {tiles : Nat → List BlockRef}
    (h : Sound ⟨regions, blocks, [], 0, 0⟩ tiles)
    (hsized : alignment ∣ shape.bytes.size ∧ shape.bytes.size < 2 ^ 64)
    (hapart : ∀ region ∈ regions,
      region.bytes.stop ≤ shape.bytes.data ∨ shape.bytes.stop ≤ region.bytes.data) :
    ∃ tiles', Sound ⟨(addRegion (blocks, regions) shape).2,
      (addRegion (blocks, regions) shape).1, [], 0, 0⟩ tiles' := by
  rw [addRegion]
  split
  · exact ⟨tiles, h⟩
  next hsize =>
  have hadded := empty_formed blocks (Nat.pos_of_ne_zero hsize) hsized.1 hsized.2
  have hget : ∀ {index : Nat} {region : Region},
      (regions ++ [((empty shape).insert blocks shape.bytes.data shape.bytes.size none none).2])[index]? =
        some region →
      (index ≠ regions.length ∧ regions[index]? = some region) ∨ (index = regions.length ∧
        region = ((empty shape).insert blocks shape.bytes.data shape.bytes.size none none).2) := by
    intro index region hregion
    rw [List.getElem?_append] at hregion
    split at hregion
    · next hlt => exact .inl ⟨Nat.ne_of_lt hlt, hregion⟩
    · rw [List.getElem?_singleton] at hregion
      split at hregion
      · exact .inr ⟨by omega, (Option.some.inj hregion).symm⟩
      · cases hregion
  have hregion_apart : ∀ {index : Nat} {region : Region}, regions[index]? = some region →
      region.bytes.stop ≤ shape.bytes.data ∨ shape.bytes.stop ≤ region.bytes.data :=
    fun hregion => hapart _ (List.mem_of_getElem? hregion)
  refine ⟨Function.update tiles regions.length [node shape.bytes.data shape.bytes.size], ?_, ?_, ?_,
    by simp, List.nodup_nil, rfl⟩
  · intro index region hregion
    rcases hget hregion with ⟨hne, hold⟩ | ⟨rfl, rfl⟩
    · rw [Function.update_of_ne hne]
      apply (h.formed hold).frame
      intro block hin
      have hne : block ≠ node shape.bytes.data shape.bytes.size := by
        rintro rfl
        exact (h.formed hold).tail_apart hadded (hregion_apart hold) hin
          (List.mem_singleton_self _)
      have hhead : (empty shape).bins (bin shape.bytes.size) ≠ some block :=
        (Option.some_ne_none _).symm
      exact insert_untouched hne (Option.some_ne_none _).symm (Option.some_ne_none _).symm hhead
    · rw [Function.update_self]
      exact hadded
  · intro index other region region' hregion hregion' hne
    rcases hget hregion with ⟨-, hold⟩ | ⟨rfl, rfl⟩
    · rcases hget hregion' with ⟨-, hold'⟩ | ⟨rfl, rfl⟩
      · exact h.apart hold hold' hne
      · exact hregion_apart hold
    · rcases hget hregion' with ⟨-, hold'⟩ | ⟨rfl, -⟩
      · exact (hregion_apart hold').symm
      · exact absurd rfl hne
  · intro index region id hregion
    refine iff_of_false ?_ (by simp)
    rcases hget hregion with ⟨hne, hold⟩ | ⟨rfl, -⟩
    · rw [Function.update_of_ne hne, h.held id hold]
      simp
    · rw [Function.update_self]
      simp [node]

theorem construct_sound (blocks : Blocks) {shapes : List Shape} (hready : Ready shapes) :
    ∃ tiles, Sound (construct blocks shapes) tiles := by
  have hrun : ∀ (shapes : List Shape) (state : Blocks × List Region), Ready shapes →
      (∀ region ∈ state.2, ∀ shape ∈ shapes,
        region.bytes.stop ≤ shape.bytes.data ∨ shape.bytes.stop ≤ region.bytes.data) →
      (∃ tiles, Sound ⟨state.2, state.1, [], 0, 0⟩ tiles) →
      ∃ tiles, Sound ⟨(shapes.foldl addRegion state).2, (shapes.foldl addRegion state).1, [],
        0, 0⟩ tiles := by
    intro shapes
    induction shapes with
    | nil => exact fun _ _ _ h => h
    | cons shape rest ih =>
        rintro ⟨blocks, regions⟩ hready hapart ⟨tiles, h⟩
        obtain ⟨hfirst, hrest⟩ := List.pairwise_cons.mp hready.apart
        apply ih _ ⟨fun other hother => hready.sized other (List.mem_cons_of_mem _ hother), hrest⟩
        · intro region hregion other hother
          rw [addRegion] at hregion
          split at hregion
          · exact hapart region hregion other (List.mem_cons_of_mem _ hother)
          · rcases List.mem_append.mp hregion with hold | hnew
            · exact hapart region hold other (List.mem_cons_of_mem _ hother)
            · rw [List.mem_singleton.mp hnew]
              exact hfirst other hother
        · exact addRegion_sound h (hready.sized shape List.mem_cons_self) fun region hregion =>
            hapart region hregion shape List.mem_cons_self
  refine hrun shapes (blocks, []) hready (by simp) ⟨fun _ => [], ?_⟩
  exact ⟨by simp, by simp, by simp, by simp, List.nodup_nil, rfl⟩

theorem windows_inside {data : Nat}
    {entries : List (Nat × CompileWorkClass × CompileWorkspaceWindow)} {shape : Shape}
    (hshape : shape ∈ windows data entries) :
    data ≤ shape.bytes.data ∧ shape.bytes.stop ≤ data + (entries.map (·.1)).sum ∧
      ∃ entry ∈ entries, shape.bytes.size = entry.1 := by
  induction entries generalizing data with
  | nil => cases hshape
  | cons entry rest ih =>
      rw [windows] at hshape
      rw [List.map_cons, List.sum_cons]
      rcases List.mem_cons.mp hshape with rfl | hrest
      · refine ⟨Nat.le_refl _, ?_, entry, List.mem_cons_self, rfl⟩
        show data + entry.1 ≤ _
        omega
      · obtain ⟨hdata, hstop, found, hfound, hsize⟩ := ih hrest
        exact ⟨by omega, by omega, found, List.mem_cons_of_mem _ hfound, hsize⟩

theorem windows_apart (data : Nat)
    (entries : List (Nat × CompileWorkClass × CompileWorkspaceWindow)) :
    (windows data entries).Pairwise fun left right => left.bytes.stop ≤ right.bytes.data := by
  induction entries generalizing data with
  | nil => exact List.Pairwise.nil
  | cons entry rest ih =>
      exact List.pairwise_cons.mpr ⟨fun shape hshape => (windows_inside hshape).1, ih _⟩

/-- What the constructor checks of its plan, and what `NumaMemory` gives it. -/
structure Fitting (page : Nat) (plan : ArenaPlan) (front : Span) (others : List Span) : Prop where
  pages : 0 < page ∧ alignment ∣ page
  aligned : ∀ entry ∈ plan.windows, page ∣ entry.1
  covered : plan.protectedBytes ≤ front.size
  memory : ∀ span ∈ front :: others, page ∣ span.size ∧ span.size < 2 ^ 64
  apart : (front :: others).Pairwise fun left right =>
    left.stop ≤ right.data ∨ right.stop ≤ left.data

theorem Fitting.ready {plan : ArenaPlan} {front : Span} {others : List Span}
    (h : Fitting page plan front others) : Ready (plan.shapes front others) := by
  have hprotected : page ∣ plan.protectedBytes := by
    rw [ArenaPlan.protectedBytes]
    apply List.dvd_sum
    intro bytes hbytes
    obtain ⟨entry, hentry, rfl⟩ := List.mem_map.mp hbytes
    exact h.aligned entry hentry
  obtain ⟨hfront, hothers⟩ := List.pairwise_cons.mp h.apart
  have hcovered := h.covered
  have hlast : ∀ shape ∈ windows (front.data + (front.size - plan.protectedBytes)) plan.windows,
      front.data + (front.size - plan.protectedBytes) ≤ shape.bytes.data ∧
        shape.bytes.stop ≤ front.stop := by
    intro shape hshape
    have hinside := windows_inside hshape
    refine ⟨hinside.1, hinside.2.1.trans ?_⟩
    show front.data + (front.size - plan.protectedBytes) + plan.protectedBytes ≤
      front.data + front.size
    omega
  constructor
  · intro shape hshape
    rcases List.mem_append.mp hshape with hordinary | hwindow
    · rcases List.mem_cons.mp hordinary with rfl | hother
      · obtain ⟨hsize, hsmall⟩ := h.memory front List.mem_cons_self
        exact ⟨h.pages.2.trans (Nat.dvd_sub hsize hprotected), by dsimp only; omega⟩
      · obtain ⟨span, hspan, rfl⟩ := List.mem_map.mp hother
        obtain ⟨hsize, hsmall⟩ := h.memory span (List.mem_cons_of_mem _ hspan)
        exact ⟨h.pages.2.trans hsize, hsmall⟩
    · obtain ⟨-, hstop, entry, hentry, hsize⟩ := windows_inside hwindow
      have hsmall := (h.memory front List.mem_cons_self).2
      have hinside := hlast shape hwindow
      rw [Span.stop, Span.stop] at hinside
      exact ⟨h.pages.2.trans (hsize ▸ h.aligned entry hentry), by omega⟩
  · rw [ArenaPlan.shapes, List.pairwise_append, List.pairwise_cons]
    refine ⟨⟨?_, ?_⟩, (windows_apart _ _).imp .inl, ?_⟩
    · intro shape hshape
      obtain ⟨span, hspan, rfl⟩ := List.mem_map.mp hshape
      have hapart := hfront span hspan
      rw [Span.stop, Span.stop] at *
      dsimp only
      omega
    · rw [List.pairwise_map]
      exact hothers
    · intro shape hshape other hother
      have hinside := hlast other hother
      rcases List.mem_cons.mp hshape with rfl | hshape
      · exact .inl hinside.1
      · obtain ⟨span, hspan, rfl⟩ := List.mem_map.mp hshape
        have hapart := hfront span hspan
        dsimp only
        omega

/-! Every state of a bank. -/

theorem Reachable.sound {start : CompileArenaBank} (hpage : 0 < page)
    (hstart : ∃ tiles, Sound start tiles) (h : Reachable page start bank) :
    ∃ tiles, Sound bank tiles := by
  induction h with
  | start => exact hstart
  | acquire _ hid hacquire ih =>
      obtain ⟨tiles, hsound⟩ := ih
      exact hsound.acquire hpage hid hacquire
  | release _ hlease ih =>
      obtain ⟨tiles, hsound⟩ := ih
      exact hsound.release hlease

/-- What holds of a bank whose regions are tiled by `tiles`. -/
structure Accounted (page : Nat) (bank : CompileArenaBank) (tiles : Nat → List BlockRef) :
    Prop where
  formed : ∀ (index : Nat) (region : Region), bank.regions[index]? = some region →
    Formed bank.blocks region (tiles index)
  inside : ∀ lease ∈ bank.leases, lease.oversized = false →
    ∃ region, bank.regions[lease.region]? = some region ∧
      region.bytes.data ≤ lease.memory.data ∧ lease.memory.stop ≤ region.bytes.stop
  disjoint : ∀ lease ∈ bank.leases, ∀ other ∈ bank.leases, lease.oversized = false →
    other.oversized = false → lease ≠ other →
      lease.memory.stop ≤ other.memory.data ∨ other.memory.stop ≤ lease.memory.data
  empty : ∀ (request : ArenaRequest) exceptional id, request.bytes = 0 →
    bank.acquire page request exceptional id = some (bank, none)
  served : ∀ (request : ArenaRequest) exceptional id, request.bytes ≠ 0 →
    ((bank.acquire page request exceptional id).isSome = true ↔
      Serves page bank tiles request exceptional)
  fitting : ∀ (request : ArenaRequest) exceptional id, bank.fits page request = true →
    (bank.acquire page request exceptional id).isSome = true

/-- A lease in use has a tile that holds its memory. -/
theorem Sound.inside {tiles : Nat → List BlockRef} (h : Sound bank tiles) {lease : ArenaLease}
    (hlease : lease ∈ bank.leases) (hplain : lease.oversized = false) :
    ∃ region, bank.regions[lease.region]? = some region ∧ .lease lease.id ∈ tiles lease.region ∧
      lease.memory.data = (bank.blocks (.lease lease.id)).data ∧
      lease.memory.stop ≤
        (bank.blocks (.lease lease.id)).data + (bank.blocks (.lease lease.id)).size := by
  obtain ⟨region, hregion, hdata, hsize⟩ := h.placed lease hlease hplain
  have hin := (h.held lease.id hregion).mpr ⟨lease, hlease, hplain, rfl, rfl⟩
  exact ⟨region, hregion, hin, hdata, by rw [Span.stop]; omega⟩

theorem Sound.accounted {tiles : Nat → List BlockRef}
    (h : Sound bank tiles) (hpage : 0 < page) : Accounted page bank tiles where
  formed := h.formed
  inside lease hlease hplain := by
    obtain ⟨region, hregion, hin, hdata, hstop⟩ := h.inside hlease hplain
    have hinside := (h.formed hregion).tiled.inside hin
    exact ⟨region, hregion, by omega, by omega⟩
  disjoint lease hlease other hother hplain hplain' hne := by
    obtain ⟨region, hregion, hin, hdata, hstop⟩ := h.inside hlease hplain
    obtain ⟨region', hregion', hin', hdata', hstop'⟩ := h.inside hother hplain'
    by_cases heq : lease.region = other.region
    · have hids : BlockRef.lease lease.id ≠ .lease other.id := fun hsame =>
        hne (h.lease_unique hlease hother (BlockRef.lease.inj hsame))
      have hapart := (h.formed hregion).tiled.spans.disjoint hin (heq ▸ hin') hids
      omega
    · have hapart := h.apart hregion hregion' heq
      have hinside := (h.formed hregion).tiled.inside hin
      have hinside' := (h.formed hregion').tiled.inside hin'
      omega
  empty request exceptional id hzero := by rw [CompileArenaBank.acquire, if_pos hzero]
  served request exceptional id hbytes := h.acquire_isSome hpage hbytes exceptional id
  fitting request exceptional id hfits := h.acquire_of_fits hfits exceptional id

theorem arena_accounted {plan : ArenaPlan} {front : Span} {others : List Span} (blocks : Blocks)
    (hfitting : Fitting page plan front others)
    (h : Reachable page (construct blocks (plan.shapes front others)) bank) :
    ∃ tiles, Accounted page bank tiles := by
  obtain ⟨tiles, hsound⟩ := h.sound hfitting.pages.1 (construct_sound blocks hfitting.ready)
  exact ⟨tiles, hsound.accounted hfitting.pages.1⟩

/-- One page for anyone, and one for the shared source. -/
def twoPages : CompileArenaBank :=
  construct (fun _ => ⟨0, 0, none, none, none, none, false⟩)
    ((ArenaPlan.mk [] 4096 0).shapes ⟨0, 8192⟩ [])

def taskPage : ArenaRequest := ⟨4096, false, .count, .task⟩

theorem twoPages_acquire : (twoPages.acquire 4096 taskPage false 0).isSome = true := rfl

def onePage : CompileArenaBank := ((twoPages.acquire 4096 taskPage false 0).get twoPages_acquire).1

theorem arena_accounted_onePage : ∃ tiles, Accounted 4096 onePage tiles := by
  refine @arena_accounted 4096 onePage ⟨[], 4096, 0⟩ ⟨0, 8192⟩ []
    (fun _ => ⟨0, 0, none, none, none, none, false⟩) ?_ ?_
  · exact ⟨by decide, by decide, by decide, by decide, by decide⟩
  · exact .acquire .start (by decide) (Option.some_get twoPages_acquire).symm

end CompileArenaBank

end Mmltk.Compile
