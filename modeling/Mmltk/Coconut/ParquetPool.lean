import Mmltk.Foundation.Tiling
import Mmltk.Storage.OccupiedRanges

namespace Mmltk.Coconut

open Mmltk.Foundation
open Mmltk.Storage (insertNode)

/-! The pool Arrow decodes a COCONut shard into: first fit in the active source window, while the
windows before it only serve `free` until their last allocation is gone. -/

def parquetPoolBytes : Nat := 256 * 1024 * 1024

/-- The bytes an allocation takes of its window. -/
def physical (size : Int) : Nat := max 1 size.toNat

/-- `std::has_single_bit` -/
def hasSingleBit (value : Nat) : Bool := value != 0 && value &&& (value - 1) == 0

/-- What Arrow is told, or, for `overflow`, what `checked_add` throws. -/
inductive Refusal where
  | invalid (message : String)
  | outOfMemory (message : String)
  | capacityError (message : String)
  | overflow (message : String)
  deriving DecidableEq, Repr

def checkedAdd (left right : Nat) (message : String) : Except Refusal Nat :=
  if 2 ^ 64 - 1 - left < right then .error (.overflow message) else .ok (left + right)

/-- `memory.data()` and `memory.size()`, and the free ranges by their offset in it. -/
structure Window where
  begin : Nat
  size : Nat
  free : List Tile
  highWater : Nat
  allocations : Nat
  deriving DecidableEq, Repr

namespace Window

def holds (window : Window) (address : Nat) : Bool :=
  window.begin ≤ address && decide (address - window.begin < window.size)

def padding (window : Window) (alignment start : Nat) : Nat :=
  (alignment - (window.begin + start) % alignment) % alignment

def fits (window : Window) (alignment count : Nat) (range : Tile) : Bool :=
  !(decide (window.padding alignment range.1 > range.2) ||
    decide (count > range.2 - window.padding alignment range.1))

/-- The loop of `allocate`: the offset taken. -/
def take (window : Window) (alignment count : Nat) : Option (Nat × Window) :=
  match window.free.find? (window.fits alignment count) with
  | none => none
  | some (start, extent) =>
      let padding := window.padding alignment start
      let offset := start + padding
      let free := eraseKey start window.free
      let free := if padding ≠ 0 then insertNode (start, padding) free else free
      let free :=
        if extent - padding > count then
          insertNode (offset + count, extent - padding - count) free
        else free
      some (offset, { window with
        free
        highWater := max window.highWater (offset + count)
        allocations := window.allocations + 1 })

/-- `lower_bound` -/
def lowerBound (key : Nat) (free : List Tile) : Option Tile :=
  (free.dropWhile fun range => range.1 < key).head?

/-- `std::prev` of `lower_bound`, unless that is the beginning. -/
def beforeBound (key : Nat) (free : List Tile) : Option Tile :=
  (free.takeWhile fun range => range.1 < key).getLast?

/-- The free range that follows joins the one given back. -/
def joinNext (offset count : Nat) (free : List Tile) : Nat × List Tile :=
  match lowerBound offset free with
  | some (start, extent) =>
      if offset + count = start then (count + extent, eraseKey start free) else (count, free)
  | none => (count, free)

def joinPrevious (offset count : Nat) (free : List Tile) : Tile × List Tile :=
  match beforeBound offset free with
  | some (start, extent) =>
      if start + extent = offset then ((start, count + extent), eraseKey start free)
      else ((offset, count), free)
  | none => ((offset, count), free)

/-- `free`, in the window that holds the allocation. -/
def release (window : Window) (offset count : Nat) : Window :=
  let next := joinNext offset count window.free
  let previous := joinPrevious offset next.1 next.2
  { window with
    free := insertNode previous.1 previous.2
    allocations := window.allocations - 1 }

/-- The extent of the free range that starts where an allocation ends. -/
def tail (window : Window) (limit : Nat) : Nat :=
  match lowerBound limit window.free with
  | some (start, extent) => if start = limit then extent else 0
  | none => 0

/-- `Reallocate` in place. -/
def resize (window : Window) (offset oldCount count : Nat) : Option Window :=
  let tail := window.tail (offset + oldCount)
  if count ≤ oldCount + tail then
    let free := if tail ≠ 0 then eraseKey (offset + oldCount) window.free else window.free
    let free :=
      if oldCount + tail > count then insertNode (offset + count, oldCount + tail - count) free
      else free
    some { window with free, highWater := max window.highWater (offset + count) }
  else none

end Window

/-- `windows_` holds the windows in the order of their resumption, so the active one comes last.
What backs a window (a bank lease, or pages of its own) stays outside. -/
structure ParquetPool where
  quiesced : List Window
  active : Option Window
  live : Int
  peak : Int
  total : Int
  allocations : Int
  fragmentedExtent : Nat
  deriving DecidableEq, Repr

namespace ParquetPool

def empty : ParquetPool := ⟨[], none, 0, 0, 0, 0, 0⟩

/-- `windows_` -/
def windows (pool : ParquetPool) : List Window := pool.quiesced ++ pool.active.toList

/-- `resume` over the memory it was given, or acquired itself. -/
def resume (pool : ParquetPool) (begin size : Nat) : Except String ParquetPool :=
  if pool.active.isSome then .ok pool
  else if size < parquetPoolBytes then
    .error "COCONut Parquet allocation requires its complete source window"
  else .ok { pool with active := some ⟨begin, size, [(0, size)], 0, 0⟩ }

def quiesce (pool : ParquetPool) : ParquetPool :=
  match pool.active with
  | none => pool
  | some window =>
      { pool with
        active := none
        quiesced := if window.allocations = 0 then pool.quiesced else pool.quiesced ++ [window] }

def contiguousFit : String := "COCONut Parquet source window has no contiguous fit"

/-- The envelope of a request that found no room. -/
def envelope (window : Window) (alignment count : Nat) : Except Refusal Nat := do
  let request ← checkedAdd count (alignment - 1) "Parquet allocation envelope overflow"
  checkedAdd window.size request "Parquet allocation envelope overflow"

/-- The private `allocate`. -/
def allocateLocked (pool : ParquetPool) (size alignment replaced : Int) :
    ParquetPool × Except Refusal Nat :=
  match pool.active with
  | none => (pool, .error (.invalid "quiesced COCONut Parquet source"))
  | some window =>
      if size < 0 ∨ alignment ≤ 0 ∨ ¬ hasSingleBit alignment.toNat then
        (pool, .error (.invalid "invalid Parquet allocation"))
      else if size > parquetPoolBytes - (pool.live - replaced) then
        (pool, .error (.outOfMemory "COCONut Parquet payload exceeds 256 MiB"))
      else
        match window.take alignment.toNat (physical size) with
        | some (offset, taken) =>
            ({ pool with
                active := some taken
                live := pool.live + size
                total := pool.total + size
                allocations := pool.allocations + 1
                peak := max pool.peak (pool.live + size - replaced) },
              .ok (window.begin + offset))
        | none =>
            match envelope window alignment.toNat (physical size) with
            | .ok extent =>
                ({ pool with fragmentedExtent := extent }, .error (.capacityError contiguousFit))
            | .error failure => (pool, .error failure)

/-- The quiesced windows after one of them took the allocation back: without that window if this
was its last. `none` if no window holds it. -/
def freeQuiesced (address count : Nat) : List Window → Option (List Window)
  | [] => none
  | window :: rest =>
      if window.holds address then
        let window := window.release (address - window.begin) count
        some (if window.allocations = 0 then rest else window :: rest)
      else (freeQuiesced address count rest).map (window :: ·)

/-- The private `free`. `none` is `std::terminate`: no window holds the address. -/
def freeLocked (pool : ParquetPool) (address : Nat) (size : Int) : Option ParquetPool :=
  if address = 0 then some pool
  else
    match freeQuiesced address (physical size) pool.quiesced with
    | some quiesced => some { pool with quiesced, live := pool.live - size }
    | none =>
        match pool.active with
        | none => none
        | some window =>
            if window.holds address then
              some { pool with
                active := some (window.release (address - window.begin) (physical size))
                live := pool.live - size }
            else none

def beginCall (pool : ParquetPool) : ParquetPool := { pool with fragmentedExtent := 0 }

/-- `Allocate` -/
def allocate (pool : ParquetPool) (size alignment : Int) : ParquetPool × Except Refusal Nat :=
  pool.beginCall.allocateLocked size alignment 0

/-- `Free` -/
def free (pool : ParquetPool) (address : Nat) (size : Int) : Option ParquetPool :=
  pool.freeLocked address size

abbrev Memory := Nat → UInt8

def memcpy (target source count : Nat) (memory : Memory) : Memory := fun address =>
  if target ≤ address ∧ address < target + count then memory (source + (address - target))
  else memory address

/-- The branch of `Reallocate` that keeps the address. -/
def resizeActive (pool : ParquetPool) (address : Nat) (oldSize size alignment : Int) :
    Option ParquetPool :=
  match pool.active with
  | none => none
  | some window =>
      if address ≠ 0 ∧ window.holds address ∧ address % alignment.toNat = 0 then
        (window.resize (address - window.begin) (physical oldSize) (physical size)).map
          fun resized =>
            { pool with
              active := some resized
              live := pool.live + (size - oldSize)
              total := pool.total + max 0 (size - oldSize)
              peak := max pool.peak (pool.live + (size - oldSize)) }
      else none

/-- What a call leaves: the pool, the memory, and the address it returns. -/
abbrev Answer := ParquetPool × Memory × Except Refusal Nat

/-- `Reallocate` -/
def reallocate (pool : ParquetPool) (memory : Memory) (address : Nat)
    (oldSize size alignment : Int) : Option Answer :=
  let pool := pool.beginCall
  if oldSize < 0 ∨ size < 0 ∨ alignment ≤ 0 ∨ ¬ hasSingleBit alignment.toNat then
    some (pool, memory, .error (.invalid "invalid Parquet reallocation"))
  else if pool.active = none then
    some (pool, memory, .error (.invalid "quiesced COCONut Parquet source"))
  else if size > parquetPoolBytes - (pool.live - oldSize) then
    some (pool, memory, .error (.outOfMemory "COCONut Parquet payload exceeds 256 MiB"))
  else
    match pool.resizeActive address oldSize size alignment with
    | some resized => some (resized, memory, .ok address)
    | none =>
        match pool.allocateLocked size alignment oldSize with
        | (pool, .error refusal) => some (pool, memory, .error refusal)
        | (pool, .ok next) =>
            let memory :=
              if oldSize ≠ 0 ∧ size ≠ 0 then memcpy next address (min oldSize size).toNat memory
              else memory
            (pool.freeLocked address oldSize).map fun pool => (pool, memory, .ok next)

end ParquetPool

end Mmltk.Coconut
