import Mathlib.Algebra.Group.Nat.Defs
import Mmltk.Foundation.HashChain
import Mmltk.Foundation.Transaction

namespace Mmltk.Explore

open Mmltk.Foundation

/-! Gallery tiles in physical slots, and the demand positions that point at them. -/

/-- The position of a slot that holds no image. -/
def absent : Nat := 2 ^ 64 - 1

def maximumCards : Nat := (1 + 2 * 4) * 256

inductive CacheFailure where
  | invalidArgument (text : String)
  | lengthError (text : String)
  | logicError (text : String)
  /-- A read past the demand, which the source leaves undefined. -/
  | undefined
  deriving DecidableEq, Repr

/-- What the tiles were rendered from; `A` is the augmentation's configuration. -/
structure CacheIdentity (A : Type) where
  incarnation : Option Nat
  dataset : Nat
  seed : Nat
  augmentation : A
  extent : Nat
  augmented : Bool
  deriving DecidableEq

structure CacheEntry (M : Type) where
  position : Nat
  compiledIndex : Nat
  bank : Nat
  semanticBank : Nat
  refreshPending : Bool
  meaning : Option M
  semanticIdentity : Nat
  deriving DecidableEq

structure GalleryThumbnailCache (A M : Type) where
  identity : CacheIdentity A
  size : Nat
  entries : Nat → CacheEntry M
  chains : Chains
  demandSlots : List Nat
  pinned : Nat → Bool
  demandFirst : Nat
  /-- The probes made since the last `Clear`: the source's counter holds them modulo `2 ^ 64`. -/
  eviction : Nat
  undo : List (Nat × CacheEntry M)
  undoIndices : Nat → Option Nat
  priorDemand : List Nat
  priorFirst : Nat
  updating : Bool

variable {A M : Type}

def CacheIdentity.initial [Inhabited A] : CacheIdentity A := ⟨none, 0, 0, default, 0, false⟩

def CacheIdentity.sameSource (identity other : CacheIdentity A) : Bool :=
  identity.incarnation = other.incarnation ∧ identity.dataset = other.dataset ∧
    identity.extent = other.extent

def CacheEntry.initial : CacheEntry M := ⟨absent, 0, 0, 0, false, none, 0⟩

namespace GalleryThumbnailCache

def initial [Inhabited A] : GalleryThumbnailCache A M :=
  ⟨.initial, 0, fun _ => .initial, .empty 0, [], fun _ => false, 0, 0, [], fun _ => none, [], 0,
    false⟩

/-- The bucket of an image. -/
def bucket (cache : GalleryThumbnailCache A M) (image : Nat) : Nat := image % cache.chains.buckets

/-- The bucket of the image a slot holds. -/
def home (cache : GalleryThumbnailCache A M) (slot : Nat) : Nat :=
  cache.bucket (cache.entries slot).compiledIndex

def setEntry (cache : GalleryThumbnailCache A M) (slot : Nat) (entry : CacheEntry M) :
    GalleryThumbnailCache A M :=
  { cache with entries := Function.update cache.entries slot entry }

/-- Puts a slot at the head of the chain of its image. -/
def link (cache : GalleryThumbnailCache A M) (slot : Nat) : GalleryThumbnailCache A M :=
  { cache with chains := cache.chains.push (cache.home slot) slot }

/-- The slots in turn, as long as they hold an image. -/
def linkUpTo (cache : GalleryThumbnailCache A M) : Nat → GalleryThumbnailCache A M
  | 0 => cache
  | slot + 1 =>
      let linked := cache.linkUpTo slot
      if (linked.entries slot).position = absent then linked else linked.link slot

def reindex (cache : GalleryThumbnailCache A M) : GalleryThumbnailCache A M :=
  { cache with
    chains := .empty (2 * cache.size + 1)
    pinned := fun slot => decide (slot < cache.size) && cache.pinned slot
    undoIndices := fun slot => if slot < cache.size then cache.undoIndices slot else none
    : GalleryThumbnailCache A M }.linkUpTo cache.size

/-- What `Configure` does where the identity changes. -/
def identify (cache : GalleryThumbnailCache A M) (identity : CacheIdentity A) :
    GalleryThumbnailCache A M :=
  let cache :=
    if cache.identity.sameSource identity then
      { cache with entries := fun slot => { cache.entries slot with refreshPending := true } }
    else { cache with size := 0 }
  { cache with identity := identity, demandSlots := [], pinned := fun _ => false }

def resize (cache : GalleryThumbnailCache A M) (count : Nat) : GalleryThumbnailCache A M :=
  if cache.size < count then
    { cache with
      size := count
      entries := fun slot => if slot < cache.size then cache.entries slot else .initial }
  else cache

def configure [DecidableEq A] (count : Nat) (identity : CacheIdentity A) :
    Transaction (GalleryThumbnailCache A M) CacheFailure Unit :=
  if count > maximumCards then
    .fail (.invalidArgument "Explore cache exceeds the viewport row bound")
  else
    .modify fun cache =>
      if cache.identity = identity ∧ count ≤ cache.size then cache
      else
        let cache := if cache.identity ≠ identity then cache.identify identity else cache
        (cache.resize count).reindex

def lookup (cache : GalleryThumbnailCache A M) (image : Nat) : Option Nat :=
  if cache.chains.buckets = 0 then none
  else
    cache.chains.search (fun slot => (cache.entries slot).compiledIndex = image) cache.size
      (cache.bucket image)

def erase (cache : GalleryThumbnailCache A M) (slot : Nat) : GalleryThumbnailCache A M :=
  if (cache.entries slot).position = absent then cache
  else { cache with chains := cache.chains.erase cache.size (cache.home slot) slot }

def save (cache : GalleryThumbnailCache A M) (slot : Nat) : GalleryThumbnailCache A M :=
  if cache.updating = false ∨ (cache.undoIndices slot).isSome then cache
  else
    { cache with
      undoIndices := Function.update cache.undoIndices slot (some cache.undo.length)
      undo := cache.undo ++ [(slot, cache.entries slot)] }

/-- Probes for a slot that is not pinned. -/
def selectVictim (cache : GalleryThumbnailCache A M) :
    Nat → GalleryThumbnailCache A M × Option Nat
  | 0 => (cache, none)
  | attempts + 1 =>
      let slot := cache.eviction % 2 ^ 64 % cache.size
      let probed := { cache with eviction := cache.eviction + 1 }
      if cache.pinned slot then probed.selectVictim attempts else (probed, some slot)

/-- The slot given to another image. -/
def replace (cache : GalleryThumbnailCache A M) (slot image : Nat) : GalleryThumbnailCache A M :=
  (((cache.save slot).erase slot).setEntry slot
    { CacheEntry.initial with position := 0, compiledIndex := image }).link slot

def assign (image : Nat) : Transaction (GalleryThumbnailCache A M) CacheFailure Nat :=
  fun cache =>
    match cache.lookup image with
    | some found => (cache, .ok found)
    | none =>
        match cache.selectVictim cache.size with
        | (probed, some slot) => (probed.replace slot image, .ok slot)
        | (probed, none) =>
            (probed, .error (.logicError "Explore cache demand exceeds retained physical slots"))

def pinHits (cache : GalleryThumbnailCache A M) (images : List Nat) : GalleryThumbnailCache A M :=
  { cache with pinned := fun slot => images.any fun image => cache.lookup image = some slot }

def resizeDemand (cache : GalleryThumbnailCache A M) (count first : Nat) :
    GalleryThumbnailCache A M :=
  { cache with
    demandSlots :=
      cache.demandSlots.take count ++ List.replicate (count - cache.demandSlots.length) 0
    demandFirst := first }

/-- Points a position of the demand at a slot. -/
def demand (cache : GalleryThumbnailCache A M) (first offset slot : Nat) :
    GalleryThumbnailCache A M :=
  let position := (first + offset) % 2 ^ 64
  let cache := { cache with pinned := Function.update cache.pinned slot true }
  let cache := if (cache.entries slot).position ≠ position then cache.save slot else cache
  let cache := cache.setEntry slot { cache.entries slot with position := position }
  { cache with demandSlots := cache.demandSlots.set offset slot }

def admitFrom (first : Nat) :
    Nat → List Nat → Transaction (GalleryThumbnailCache A M) CacheFailure Unit
  | _, [] => pure ()
  | offset, image :: rest => do
      let slot ← assign image
      Transaction.modify fun cache => cache.demand first offset slot
      admitFrom first (offset + 1) rest

def admitImages (images : List Nat) (first : Nat) :
    Transaction (GalleryThumbnailCache A M) CacheFailure Unit := do
  let cache ← Transaction.read
  if images.length > cache.size then
    Transaction.fail (.lengthError "Explore cache demand exceeds capacity")
  else do
    Transaction.modify fun cache => (cache.pinHits images).resizeDemand images.length first
    admitFrom first 0 images

def position (cache : GalleryThumbnailCache A M) (image : Nat) : Nat :=
  match cache.lookup image with
  | none => absent
  | some slot => if cache.pinned slot then (cache.entries slot).position else absent

/-- The slot of a position of the demand. -/
def slot (cache : GalleryThumbnailCache A M) (position : Nat) : Option Nat :=
  cache.demandSlots[(position + (2 ^ 64 - cache.demandFirst % 2 ^ 64)) % 2 ^ 64]?

def complete (position image : Nat) (meaning : Option M) (semanticIdentity bank semanticBank : Nat) :
    Transaction (GalleryThumbnailCache A M) CacheFailure Unit :=
  if bank > 1 ∨ semanticBank > 1 then
    .fail (.invalidArgument "Explore cache plane version is invalid")
  else do
    let slot ← assign image
    Transaction.modify fun cache =>
      (cache.save slot).setEntry slot
        ⟨position, image, bank, semanticBank, false, meaning, semanticIdentity⟩

def updateSemantics (position semanticIdentity semanticBank : Nat) :
    Transaction (GalleryThumbnailCache A M) CacheFailure Unit :=
  if semanticBank > 1 then .fail (.invalidArgument "Explore cache plane version is invalid")
  else do
    let cache ← Transaction.read
    match cache.slot position with
    | none => Transaction.fail .undefined
    | some slot =>
        if (cache.entries slot).meaning.isNone then
          Transaction.fail
            (.logicError "Explore semantic refresh requires retained clean pixels")
        else
          Transaction.modify fun cache =>
            (cache.save slot).setEntry slot
              { cache.entries slot with semanticIdentity, semanticBank }

def beginUpdate : Transaction (GalleryThumbnailCache A M) CacheFailure Unit := do
  let cache ← Transaction.read
  if cache.updating then
    Transaction.fail (.logicError "Explore cache update is already active")
  else
    Transaction.modify fun cache =>
      { cache with
        priorDemand := cache.demandSlots, priorFirst := cache.demandFirst, updating := true }

def commitUpdate (cache : GalleryThumbnailCache A M) : GalleryThumbnailCache A M :=
  { cache with
    undoIndices := fun slot =>
      if slot ∈ cache.undo.map Prod.fst then none else cache.undoIndices slot
    undo := []
    priorDemand := []
    updating := false }

def restore (cache : GalleryThumbnailCache A M) (slot : Nat) (entry : CacheEntry M) :
    GalleryThumbnailCache A M :=
  let cache := (cache.erase slot).setEntry slot entry
  if entry.position = absent then cache else cache.link slot

def restoreEach (cache : GalleryThumbnailCache A M) :
    List (Nat × CacheEntry M) → GalleryThumbnailCache A M
  | [] => cache
  | (slot, entry) :: rest => (cache.restore slot entry).restoreEach rest

def rollbackUpdate (cache : GalleryThumbnailCache A M) : GalleryThumbnailCache A M :=
  if cache.updating = false then cache
  else
    let cache := cache.restoreEach cache.undo
    { cache with
      demandSlots := cache.priorDemand
      demandFirst := cache.priorFirst
      pinned := fun slot => decide (slot ∈ cache.priorDemand)
      : GalleryThumbnailCache A M }.commitUpdate

def clear [Inhabited A] (cache : GalleryThumbnailCache A M) : GalleryThumbnailCache A M :=
  { cache.commitUpdate with
    size := 0
    entries := fun _ => .initial
    chains := .empty 0
    pinned := fun _ => false
    demandSlots := []
    identity := .initial
    eviction := 0 }

end GalleryThumbnailCache

inductive CacheOperation (A M : Type) where
  | configure (count : Nat) (identity : CacheIdentity A)
  | clear
  | beginUpdate
  | commitUpdate
  | rollbackUpdate
  | admitImages (images : List Nat) (first : Nat)
  | complete (position image : Nat) (meaning : Option M)
      (semanticIdentity bank semanticBank : Nat)
  | updateSemantics (position semanticIdentity semanticBank : Nat)

namespace GalleryThumbnailCache

variable [Inhabited A] [DecidableEq A]

/-- One call; a failure leaves what it had changed. -/
def perform (cache : GalleryThumbnailCache A M) :
    CacheOperation A M → GalleryThumbnailCache A M
  | .configure count identity => (configure count identity cache).1
  | .clear => cache.clear
  | .beginUpdate => (beginUpdate cache).1
  | .commitUpdate => cache.commitUpdate
  | .rollbackUpdate => cache.rollbackUpdate
  | .admitImages images first => (admitImages images first cache).1
  | .complete position image meaning semanticIdentity bank semanticBank =>
      (complete position image meaning semanticIdentity bank semanticBank cache).1
  | .updateSemantics position semanticIdentity semanticBank =>
      (updateSemantics position semanticIdentity semanticBank cache).1

end GalleryThumbnailCache

end Mmltk.Explore
