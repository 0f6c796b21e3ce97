import Mmltk.Foundation.Floating

namespace Mmltk.Catalog

open Mmltk.Foundation

/-! The joints of a class: their names, edges, mirror images and sigmas. -/

def keypointsPerClassCapacity : Nat := 256

def skeletonEdgeCapacity : Nat := 512

def keypointNameCapacity : Nat := 256

structure SkeletonEdge where
  first : Nat
  second : Nat
  deriving DecidableEq, Repr

structure ClassKeypointSchema (F : Type) where
  names : List String
  skeleton : List SkeletonEdge
  horizontalFlip : List Nat
  oksSigmas : List F
  deriving Repr

/-- Neither empty nor too long, and without a zero character. -/
def boundedName (capacity : Nat) (name : String) : Bool :=
  name ≠ "" && name.utf8ByteSize ≤ capacity && !name.toList.contains '\x00'

def orderedEdge (edge : SkeletonEdge) : SkeletonEdge :=
  if edge.second < edge.first then ⟨edge.second, edge.first⟩ else edge

variable {F : Type} [Floating F]

def validateJoint (schema : ClassKeypointSchema F) (name : String) (index : Nat) :
    Except String Unit := do
  if !boundedName keypointNameCapacity name || (schema.names.take index).contains name then
    throw "keypoint names must be unique, nonempty, bounded and NUL-free"
  let mirrored :=
    schema.horizontalFlip[index]?.any fun flip =>
      flip < schema.names.length && schema.horizontalFlip[flip]? = some index
  if !mirrored then
    throw "keypoint horizontal flip must be an involutive permutation"
  if !schema.oksSigmas[index]?.any fun sigma => Floating.isFinite sigma && 0 < sigma then
    throw "keypoint OKS sigmas must be finite and positive"

def validateEdge (schema : ClassKeypointSchema F) (edge : SkeletonEdge) (index : Nat) :
    Except String Unit :=
  if schema.names.length ≤ edge.first ∨ schema.names.length ≤ edge.second ∨
      edge.first = edge.second ∨
      orderedEdge edge ∈ (schema.skeleton.take index).map orderedEdge then
    throw "keypoint skeleton contains an invalid or duplicate edge"
  else pure ()

def validateKeypointSchema (schema : ClassKeypointSchema F) : Except String Unit := do
  if keypointsPerClassCapacity < schema.names.length ∨
      schema.horizontalFlip.length ≠ schema.names.length ∨
      schema.oksSigmas.length ≠ schema.names.length ∨
      skeletonEdgeCapacity < schema.skeleton.length then
    throw "keypoint schema counts exceed capacity or disagree"
  schema.names.zipIdx.forM fun (name, index) => validateJoint schema name index
  schema.skeleton.zipIdx.forM fun (edge, index) => validateEdge schema edge index

end Mmltk.Catalog
