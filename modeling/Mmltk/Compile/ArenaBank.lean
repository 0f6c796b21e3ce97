import Mmltk.Compile.RegionAcquire
import Mmltk.Compile.RegionRelease

namespace Mmltk.Compile

structure ArenaLease where
  id : Nat
  requested : Nat
  region : Nat
  oversized : Bool
  memory : Span
  deriving DecidableEq

structure ArenaRequest where
  bytes : Nat
  completing : Bool
  kind : CompileWorkClass
  window : CompileWorkspaceWindow

structure CompileArenaBank where
  regions : List Region
  blocks : Blocks
  leases : List ArenaLease
  leased : Nat
  exceptional : Nat

namespace CompileArenaBank

/-! Construction. -/

structure Shape where
  bytes : Span
  completion : CompileWorkClass
  window : CompileWorkspaceWindow

def empty (shape : Shape) : Region where
  bytes := shape.bytes
  completion := shape.completion
  window := shape.window
  bins _ := none
  nonempty := 0
  freeBytes := shape.bytes.size

def addRegion (state : Blocks × List Region) (shape : Shape) : Blocks × List Region :=
  if shape.bytes.size = 0 then state
  else
    let inserted := (empty shape).insert state.1 shape.bytes.data shape.bytes.size none none
    (inserted.1, state.2 ++ [inserted.2])

/-- The protected windows, one behind the other. -/
def windows (data : Nat) : List (Nat × CompileWorkClass × CompileWorkspaceWindow) → List Shape
  | [] => []
  | (bytes, completion, window) :: rest =>
      ⟨⟨data, bytes⟩, completion, window⟩ :: windows (data + bytes) rest

structure ArenaPlan where
  completion : List Nat
  sharedBytes : Nat
  compactionBytes : Nat

def ArenaPlan.windows (plan : ArenaPlan) : List (Nat × CompileWorkClass × CompileWorkspaceWindow) :=
  (plan.completion.zip [.acquisition, .extraction, .annotations, .pixels, .gather, .output]).map
    (fun entry => (entry.1, entry.2, .task)) ++
  [(plan.sharedBytes, .count, .sharedSource), (plan.compactionBytes, .count, .compaction)]

def ArenaPlan.protectedBytes (plan : ArenaPlan) : Nat := (plan.windows.map (·.1)).sum

/-- The memory of the first node ends in the protected windows. -/
def ArenaPlan.shapes (plan : ArenaPlan) (front : Span) (others : List Span) : List Shape :=
  let ordinary := front.size - plan.protectedBytes
  ⟨⟨front.data, ordinary⟩, .count, .task⟩ :: (others.map fun bytes => ⟨bytes, .count, .task⟩) ++
    CompileArenaBank.windows (front.data + ordinary) plan.windows

def construct (blocks : Blocks) (shapes : List Shape) : CompileArenaBank :=
  let state := shapes.foldl addRegion (blocks, [])
  { regions := state.2, blocks := state.1, leases := [], leased := 0, exceptional := 0 }

/-! Requests. -/

section

variable (page : Nat) (bank : CompileArenaBank) (request : ArenaRequest)

def admits (value : Region) : Bool :=
  value.eligible request.completing request.kind request.window

def normalCapacity : Nat :=
  bank.regions.foldl (fun largest value =>
    if admits request value then max largest value.bytes.size else largest) 0

def normalFit : Bool := request.bytes ≤ bank.normalCapacity request

/-- `page_rounded_bytes`, `none` for a sum that does not fit. -/
def pageRoundedBytes (bytes : Nat) : Option Nat :=
  if bytes > 2 ^ 64 - 1 - (page - 1) then none else some ((bytes + page - 1) / page * page)

def reservationBytes : Option Nat :=
  if request.bytes = 0 then some 0
  else if bank.normalFit request then
    if request.bytes + (alignment - 1) < 2 ^ 64 then
      some ((request.bytes + (alignment - 1)) / alignment * alignment)
    else none
  else pageRoundedBytes page request.bytes

structure Selection where
  region : Nat
  value : Region
  block : BlockRef

/-- One turn of the loop of `select`. -/
def consider (size : Nat) (selected : Option Selection) (entry : Region × Nat) :
    Option Selection :=
  let value := entry.1
  if !admits request value || (selected.any (·.value.ordinary) && !value.ordinary) then selected
  else
    match value.find bank.blocks size with
    | none => selected
    | some block =>
        if selected.all fun other =>
            (value.ordinary && !other.value.ordinary) ||
              (value.ordinary == other.value.ordinary &&
                decide ((bank.blocks block).size < (bank.blocks other.block).size)) then
          some ⟨entry.2, value, block⟩
        else selected

def select (size : Nat) : Option Selection :=
  bank.regions.zipIdx.foldl (bank.consider request size) none

def fits : Bool :=
  if bank.exceptional ≠ 0 then false
  else if request.bytes = 0 then true
  else if bank.normalFit request then
    (bank.reservationBytes page request).any fun size => (bank.select request size).isSome
  else false

/-- `none` where the source throws, which is before anything has changed.  An empty request
gets an empty lease, the other `none`. -/
def acquire (exceptional : Bool) (id : Nat) : Option (CompileArenaBank × Option ArenaLease) :=
  if request.bytes = 0 then some (bank, none)
  else
    (bank.reservationBytes page request).bind fun extent =>
      if bank.exceptional ≠ 0 then none
      else
        match bank.select request extent with
        | some selected =>
            let lease : ArenaLease :=
              { id := id, requested := request.bytes, region := selected.region,
                oversized := false,
                memory := ⟨(bank.blocks selected.block).data, request.bytes⟩ }
            let after := selected.value.acquire bank.blocks selected.block (.lease id) extent
            some ({ bank with
              regions := bank.regions.set selected.region after.2,
              blocks := after.1,
              leases := lease :: bank.leases,
              leased := bank.leased + request.bytes }, some lease)
        | none =>
            if !exceptional || bank.leased ≠ 0 || bank.normalFit request then none
            else
              let lease : ArenaLease :=
                { id := id, requested := request.bytes, region := 0, oversized := true,
                  memory := ⟨0, 0⟩ }
              some ({ bank with leases := lease :: bank.leases, exceptional := extent }, some lease)

/-- The last handle of a lease is gone. -/
def release (lease : ArenaLease) : CompileArenaBank :=
  if lease.oversized then
    { bank with leases := bank.leases.erase lease, exceptional := 0 }
  else
    match bank.regions[lease.region]? with
    | none => bank
    | some value =>
        let after := value.release bank.blocks (.lease lease.id)
        { bank with
          regions := bank.regions.set lease.region after.2,
          blocks := after.1,
          leases := bank.leases.erase lease,
          leased := bank.leased - lease.requested }

end

/-- The states of a bank.  A new lease has a control of its own among those still alive. -/
inductive Reachable (page : Nat) (start : CompileArenaBank) : CompileArenaBank → Prop
  | start : Reachable page start start
  | acquire {bank after : CompileArenaBank} {request : ArenaRequest} {exceptional : Bool} {id : Nat}
      {lease : Option ArenaLease} (h : Reachable page start bank)
      (hid : id ∉ bank.leases.map ArenaLease.id)
      (hacquire : bank.acquire page request exceptional id = some (after, lease)) :
      Reachable page start after
  | release {bank : CompileArenaBank} {lease : ArenaLease} (h : Reachable page start bank)
      (hlease : lease ∈ bank.leases) : Reachable page start (bank.release lease)

end CompileArenaBank

end Mmltk.Compile
