import Mmltk.Benchmark.HttpResponse
import Mmltk.Foundation.ByteContent

namespace Mmltk.Benchmark

open Mmltk.Foundation

/-! What the two ways of downloading an artifact share: the request, its four files, and the server. -/

structure DownloadRequest where
  url : Text
  expectedSize : Nat
  maximumAttempts : Nat

structure DownloadSegment where
  start : Nat
  last : Nat
  completed : Nat
  attempts : Nat
  deriving DecidableEq, Repr

def downloadSchemaVersion : Nat := 2

def segmentedMode : Text := "segmented".toList

/-- The document beside a partial file; an ordinary one has no mode, size or segments. -/
structure PartialMetadata where
  schemaVersion : Nat
  mode : Text
  url : Text
  size : Nat
  etag : Text
  lastModified : Text
  bytes : Nat
  segments : List DownloadSegment
  deriving DecidableEq, Repr

/-- The document beside a complete artifact; `ι` is the digest that identifies it. -/
structure CompleteMetadata (ι : Type) where
  schemaVersion : Nat
  complete : Bool
  url : Text
  size : Nat
  identity : ι
  etag : Text
  lastModified : Text
  deriving DecidableEq, Repr

structure DownloadFiles (ι : Type) where
  part : Option ByteContent
  partMetadata : Option PartialMetadata
  destination : Option ByteContent
  complete : Option (CompleteMetadata ι)

def DownloadFiles.none {ι : Type} : DownloadFiles ι := ⟨.none, .none, .none, .none⟩

/-- `artifact_identity`: the digest of the request's location, a size and the validators. -/
abbrev ArtifactIdentity (ι : Type) := Text → Nat → Text → Text → ι

/-- `validate_complete_artifact`: an artifact without a document is taken as it is. -/
def validateCompleteArtifact {ι : Type} [DecidableEq ι] (identity : ArtifactIdentity ι)
    (request : DownloadRequest) (files : DownloadFiles ι) : Bool :=
  match files.destination with
  | none => false
  | some content =>
      if content.size = 0 ∨ (request.expectedSize ≠ 0 ∧ content.size ≠ request.expectedSize) then
        false
      else
        match files.complete with
        | none => true
        | some metadata =>
            metadata.schemaVersion = downloadSchemaVersion && metadata.complete &&
              metadata.url = request.url && metadata.size = content.size &&
              metadata.identity =
                identity request.url content.size metadata.etag metadata.lastModified

/-! The remote object: it changes from version to version, and no validator is given to two of them. -/

structure RemoteObject (V : Type) where
  content : V → ByteContent
  etagOwner : Text → V
  lastModifiedOwner : Text → V

namespace RemoteObject

variable {V : Type} {remote : RemoteObject V} {version other : V} {etag lastModified : Text}

/-- Those of the two validators that are there are this version's. -/
def Names (remote : RemoteObject V) (etag lastModified : Text) (version : V) : Prop :=
  (etag ≠ [] → remote.etagOwner etag = version) ∧
    (lastModified ≠ [] → remote.lastModifiedOwner lastModified = version)

instance [DecidableEq V] : Decidable (remote.Names etag lastModified version) :=
  inferInstanceAs (Decidable (_ ∧ _))

/-- The version that an `If-Range` of these validators asks for. -/
def ifRange (remote : RemoteObject V) (etag lastModified : Text) : V :=
  if etag ≠ [] then remote.etagOwner etag else remote.lastModifiedOwner lastModified

/-- Whatever the validators name is what their `If-Range` asks for. -/
theorem Names.ifRange_eq (h : remote.Names etag lastModified version)
    (hpresent : ¬ (etag = [] ∧ lastModified = [])) :
    remote.ifRange etag lastModified = version := by
  rw [ifRange]
  split
  next hetag => exact h.1 hetag
  next hetag =>
    rw [not_not] at hetag
    exact h.2 fun hlast => hpresent ⟨hetag, hlast⟩

/-- A response's validators, those of an earlier one where it has none. -/
theorem Names.orElse {newEtag newLastModified : Text}
    (h : remote.Names etag lastModified version)
    (hnew : remote.Names newEtag newLastModified version) :
    remote.Names (if newEtag = [] then etag else newEtag)
      (if newLastModified = [] then lastModified else newLastModified) version := by
  constructor
  · split
    · exact h.1
    · exact hnew.1
  · split
    · exact h.2
    · exact hnew.2

end RemoteObject

end Mmltk.Benchmark
