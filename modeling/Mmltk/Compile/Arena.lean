import Mathlib.Data.Nat.Log
import Mmltk.Compile.Resources
import Mmltk.Foundation.Linked
import Mmltk.Foundation.Outcome

namespace Mmltk.Compile

open Mmltk.Foundation

def alignment : Nat := 64

/-! Where a block's links live: in the control of the lease that owns it, or at the end
of its own unused extent. -/

inductive BlockRef where
  | lease (id : Nat)
  | tail (address : Nat)
  deriving DecidableEq, Repr

structure ArenaBlock where
  data : Nat
  size : Nat
  previous : Option BlockRef
  next : Option BlockRef
  freePrevious : Option BlockRef
  freeNext : Option BlockRef
  free : Bool
  deriving DecidableEq, Repr

abbrev Blocks := BlockRef → ArenaBlock

/-- `if (node) node->… = …`. -/
def assign (blocks : Blocks) (node : Option BlockRef)
    (change : ArenaBlock → ArenaBlock) : Blocks :=
  match node with
  | none => blocks
  | some block => Function.update blocks block (change (blocks block))

structure Span where
  data : Nat
  size : Nat
  deriving DecidableEq, Repr

def Span.stop (span : Span) : Nat := span.data + span.size

structure Region where
  bytes : Span
  completion : CompileWorkClass
  window : CompileWorkspaceWindow
  bins : Nat → Option BlockRef
  nonempty : BitVec 64
  freeBytes : Nat

namespace Region

def ordinary (region : Region) : Bool :=
  region.window = .task ∧ region.completion = .count

def eligible (region : Region) (completing : Bool) (kind : CompileWorkClass)
    (requested : CompileWorkspaceWindow) : Bool :=
  region.ordinary ∨ (region.window ≠ .task ∧ region.window = requested) ∨
    (completing ∧ kind ≠ .count ∧ region.completion = kind)

def bin (size : Nat) : Nat := Nat.log2 (size / alignment)

def unlink (blocks : Blocks) (region : Region) (block : BlockRef) : Blocks × Region :=
  let index := bin (blocks block).size
  let before := (blocks block).freePrevious
  let after := (blocks block).freeNext
  let blocks := assign blocks before fun node => { node with freeNext := after }
  let blocks := assign blocks after fun node => { node with freePrevious := before }
  let bins := if before.isSome then region.bins else Function.update region.bins index after
  (blocks,
    { region with
      bins := bins,
      nonempty := if bins index = none then region.nonempty &&& ~~~(1#64 <<< index)
        else region.nonempty })

/-- The node of an unused extent sits in its last `alignment` bytes. -/
def node (data size : Nat) : BlockRef := .tail (data + size - alignment)

def insert (blocks : Blocks) (region : Region) (data size : Nat)
    (previous next : Option BlockRef) : Blocks × Region :=
  let index := bin size
  let block := node data size
  let head := region.bins index
  let blocks := Function.update blocks block
    { data := data, size := size, previous := previous, next := next,
      freePrevious := none, freeNext := head, free := true }
  let blocks := assign blocks previous fun node => { node with next := some block }
  let blocks := assign blocks next fun node => { node with previous := some block }
  let blocks := assign blocks head fun node => { node with freePrevious := some block }
  (blocks,
    { region with
      bins := Function.update region.bins index (some block),
      nonempty := region.nonempty ||| (1#64 <<< index) })

/-- The blocks of one bin.  A region of `n` bytes cannot hold more than `n / alignment`. -/
def chain (blocks : Blocks) (region : Region) (index : Nat) : List BlockRef :=
  follow (fun block => (blocks block).freeNext) (region.bytes.size / alignment)
    (region.bins index)

/-- The smallest block that fits, the first exact one ending the scan. -/
def best (blocks : Blocks) (size : Nat) : Option BlockRef → List BlockRef → Option BlockRef
  | found, [] => found
  | found, block :: rest =>
      if (blocks block).size ≥ size ∧
          (∀ other, found = some other → (blocks block).size < (blocks other).size) then
        if (blocks block).size = size then some block
        else best blocks size (some block) rest
      else best blocks size found rest

/-- `std::countr_zero` of a nonzero word. -/
def countrZero (word : BitVec 64) : Nat :=
  ((List.range 64).find? fun index => word.getLsbD index).getD 64

def find (blocks : Blocks) (region : Region) (size : Nat) : Option BlockRef :=
  if size > region.freeBytes then none
  else
    let index := bin size
    match best blocks size none (chain blocks region index) with
    | some block => some block
    | none =>
        let larger := region.nonempty &&& ((~~~1#64) <<< index)
        if larger = 0 then none else region.bins (countrZero larger)

/-- `owned = free`, its free links cleared, both neighbours pointed at it, and then its size. -/
def own (blocks : Blocks) (free owned : BlockRef) (size : Nat) : Blocks :=
  let block := blocks free
  let blocks := Function.update blocks owned
    { block with free := false, freePrevious := none, freeNext := none }
  let blocks := assign blocks block.previous fun node => { node with next := some owned }
  let blocks := assign blocks block.next fun node => { node with previous := some owned }
  assign blocks (some owned) fun node => { node with size := size }

def acquire (blocks : Blocks) (region : Region) (free owned : BlockRef) (size : Nat) :
    Blocks × Region :=
  let (blocks, region) := unlink blocks region free
  let block := blocks free
  let remaining := block.size - size
  let blocks := own blocks free owned size
  let (blocks, region) :=
    if remaining = 0 then (blocks, region)
    else
      let (blocks, region) :=
        insert blocks region (block.data + size) remaining (some owned) block.next
      (assign blocks (some owned) fun held =>
        { held with next := some (node (block.data + size) remaining) }, region)
  (blocks, { region with freeBytes := region.freeBytes - size })

structure Joined where
  blocks : Blocks
  region : Region
  data : Nat
  size : Nat
  neighbour : Option BlockRef

/-- `if (previous && previous->free)` -/
def joinPrevious (blocks : Blocks) (region : Region) (data size : Nat) :
    Option BlockRef → Joined
  | none => ⟨blocks, region, data, size, none⟩
  | some previous =>
      if (blocks previous).free then
        let (unlinked, region) := unlink blocks region previous
        ⟨unlinked, region, (unlinked previous).data, size + (unlinked previous).size,
          (unlinked previous).previous⟩
      else ⟨blocks, region, data, size, some previous⟩

/-- `if (next && next->free)` -/
def joinNext (blocks : Blocks) (region : Region) (data size : Nat) : Option BlockRef → Joined
  | none => ⟨blocks, region, data, size, none⟩
  | some next =>
      if (blocks next).free then
        let (unlinked, region) := unlink blocks region next
        ⟨unlinked, region, data, size + (unlinked next).size, (unlinked next).next⟩
      else ⟨blocks, region, data, size, some next⟩

def release (blocks : Blocks) (region : Region) (owned : BlockRef) : Blocks × Region :=
  let block := blocks owned
  let region := { region with freeBytes := region.freeBytes + block.size }
  let left := joinPrevious blocks region block.data block.size block.previous
  let right := joinNext left.blocks left.region left.data left.size block.next
  insert right.blocks right.region right.data right.size left.neighbour right.neighbour

end Region

end Mmltk.Compile
