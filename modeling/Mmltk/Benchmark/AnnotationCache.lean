import Mmltk.Foundation.Generations

namespace Mmltk.Benchmark

open Mmltk.Foundation

/-! The COCO annotation cache: two splits, one archive, and up to three attempts to build the splits'
indexes from it. `I` names an archive, `D` is a digest, `E` is an exception that is not about the
source. -/

inductive Split where
  | train
  | validation
  deriving DecidableEq, Repr

inductive CocoSplitAdmission where
  | unselected
  | optional
  | required
  deriving DecidableEq, Repr

/-- What ends a step: the source is unavailable, or anything else is raised. -/
inductive Fault (E : Type) where
  | sourceUnavailable
  | raised (exception : E)
  deriving DecidableEq, Repr

inductive SettleFailure (E : Type) where
  | notPending
  | stopped (fault : Fault E)
  deriving DecidableEq, Repr

def benchmarkCacheSchemaVersion : Nat := 2

namespace Annotations

/-- What an index was parsed from: JSON extracted from the archive of one delivery, the initial one
being number zero, or JSON found extracted under a manifest that names the archive. A stored index is
one found on disk with the digest of the archive's member. -/
inductive Source (I : Type) where
  | extracted (delivery : Nat)
  | recorded (archive : I)
  | stored
  deriving DecidableEq, Repr

/-- An index; nothing is known of the source of what `discover` found. -/
structure Index (I D : Type) where
  digest : D
  source : Option (Source I)
  deriving DecidableEq, Repr

structure ExtractManifest (I D : Type) where
  schemaVersion : Nat
  complete : Bool
  archiveIdentity : I
  member : Split
  size : Nat
  identity : Option D
  deriving DecidableEq, Repr

/-- The normalized index on disk; it may be unreadable. -/
structure StoredIndex (D : Type) where
  annotationDigest : D
  readable : Bool
  deriving DecidableEq, Repr

/-- The files of a split; of its JSON, the size. -/
structure SplitFiles (I D : Type) where
  json : Option Nat
  manifest : Option (ExtractManifest I D)
  normalized : Option (StoredIndex D)
  deriving DecidableEq, Repr

def SplitFiles.removed {I D : Type} : SplitFiles I D := ⟨none, none, none⟩

/-- A split, with what the split sink has received about it. -/
structure SplitState (I D : Type) where
  admission : CocoSplitAdmission
  index : Option (Index I D)
  generation : Nat
  files : SplitFiles I D
  published : List (Publication (Index I D))
  deriving DecidableEq, Repr

namespace SplitState

variable {I D E : Type} [DecidableEq I] [DecidableEq D]

def missing (state : SplitState I D) : Bool :=
  state.admission ≠ .unselected && state.index.isNone

def requiredMissing (state : SplitState I D) : Bool :=
  state.admission = .required && state.index.isNone

def publish (state : SplitState I D) (terminal : Bool) : SplitState I D :=
  { state with published := state.published ++ [⟨state.generation, terminal, state.index⟩] }

def withdraw (state : SplitState I D) : SplitState I D :=
  publish { state with index := none, generation := state.generation + 1 } false

def invalidateMissing (state : SplitState I D) : SplitState I D :=
  if state.missing then { state with files := .removed } else state

def settleMissing (state : SplitState I D) : SplitState I D :=
  if state.missing then state.publish true else state

/-- The identity of a member that is already extracted from this archive. -/
def cachedIdentity (split : Split) (archive : I) (files : SplitFiles I D) : Option D :=
  match files.json, files.manifest with
  | some size, some manifest =>
      if manifest.schemaVersion = benchmarkCacheSchemaVersion ∧ manifest.complete = true ∧
          manifest.archiveIdentity = archive ∧ manifest.member = split ∧ manifest.size = size then
        manifest.identity
      else none
  | _, _ => none

def install (state : SplitState I D) (digest : D) (source : Source I) : SplitState I D :=
  publish
    { state with
      index := some ⟨digest, some source⟩
      files := { state.files with normalized := some ⟨digest, true⟩ } }
    true

/-- `build_split`; `parsed` is what the parser makes of the JSON if it is called. -/
def build (state : SplitState I D) (digest : D) (source : Source I)
    (parsed : Except (Fault E) Unit) : SplitState I D × Except (Fault E) Unit :=
  if state.index.isSome then (state, .ok ())
  else if state.files.normalized = some ⟨digest, true⟩ then (state.install digest .stored, .ok ())
  else
    match parsed with
    | .ok () => (state.install digest source, .ok ())
    | .error fault => (state, .error fault)

end SplitState

/-- A member of the archive that an attempt looks for. A parser is started for it as soon as it has
its identity. -/
structure Member (I D : Type) where
  identity : Option (D × Source I)
  failed : Bool
  encountered : Option Nat
  deriving DecidableEq, Repr

/-- What the reader finds of an entry: not a regular file, or so many bytes, which it then hands
over or fails to. -/
inductive Body (E : Type) where
  | irregular
  | regular (bytes : Nat) (fault : Option (Fault E))
  deriving DecidableEq, Repr

/-- An entry of the archive, and the split whose member its name ends with. -/
structure Entry (E : Type) where
  member : Option Split
  body : Body E
  deriving DecidableEq, Repr

/-- Everything that one attempt meets: the entries of the stream and how it ends, what the parsers
make of the members, a cancellation, and the repair if one is asked for. -/
structure Attempt (I E : Type) where
  entries : List (Entry E)
  ending : Option (Fault E)
  parsed : Split → Except (Fault E) Unit
  cancelled : Option E
  repair : Except (Fault E) I

/-- The walk over an archive's members. -/
structure Extraction (I D : Type) where
  remaining : Nat
  members : Split → Option (Member I D)
  files : Split → SplitFiles I D

namespace Extraction

variable {I D E : Type} [DecidableEq I] [DecidableEq D]

def set (extraction : Extraction I D) (split : Split) (member : Member I D) : Extraction I D :=
  { extraction with members := Function.update extraction.members split (some member) }

/-- `complete`: one member less to look for. -/
def complete (extraction : Extraction I D) (split : Split) (member : Member I D) :
    Extraction I D :=
  { extraction.set split member with remaining := extraction.remaining - 1 }

/-- A member is written out, and its manifest after it. -/
def extract (digest : I → Split → Nat → D) (archive : I) (delivery : Nat)
    (extraction : Extraction I D) (split : Split) (member : Member I D) (bytes : Nat) :
    Extraction I D :=
  let identity := digest archive split bytes
  let files := { extraction.files split with
    json := some bytes
    manifest :=
      some ⟨benchmarkCacheSchemaVersion, true, archive, split, bytes, some identity⟩ }
  complete { extraction with files := Function.update extraction.files split files } split
    { member with identity := some (identity, .extracted delivery) }

/-- One entry of the stream. A member that is there twice is in conflict with itself. -/
def visit (digest : I → Split → Nat → D) (archive : I) (delivery position : Nat)
    (extraction : Extraction I D) (entry : Entry E) : Extraction I D × Option (Fault E) :=
  match entry.member with
  | none => (extraction, none)
  | some split =>
    match extraction.members split with
    | none => (extraction, none)
    | some member =>
      if member.encountered.any (· ≠ position) then (extraction, some .sourceUnavailable)
      else
        let member := { member with encountered := some position }
        if member.identity.isSome || member.failed then (extraction.set split member, none)
        else
          match entry.body with
          | .irregular => (extraction.complete split { member with failed := true }, none)
          | .regular 0 _ => (extraction.complete split { member with failed := true }, none)
          | .regular _ (some fault) => (extraction.set split member, some fault)
          | .regular bytes none =>
              (extraction.extract digest archive delivery split member bytes, none)

def walk (digest : I → Split → Nat → D) (archive : I) (delivery : Nat) (ending : Option (Fault E)) :
    Nat → List (Entry E) → Extraction I D → Extraction I D × Option (Fault E)
  | _, [], extraction => (extraction, if extraction.remaining = 0 then none else ending)
  | position, entry :: rest, extraction =>
      if extraction.remaining = 0 then (extraction, none)
      else
        match extraction.visit digest archive delivery position entry with
        | (stopped, some fault) => (stopped, some fault)
        | (next, none) => walk digest archive delivery ending (position + 1) rest next

/-- The members looked for, those already extracted among them. -/
def begin (archive : I) (split : Split → SplitState I D) : Extraction I D :=
  let members := fun which =>
    if (split which).missing then
      some
        { identity := (SplitState.cachedIdentity which archive (split which).files).map
            fun identity => (identity, .recorded archive)
          failed := false
          encountered := none }
    else none
  { remaining := [Split.validation, .train].countP fun which =>
      (members which).any fun member => member.identity.isNone
    members
    files := fun which => (split which).files }

/-- A member that the archive does not contain. -/
def absent (member : Member I D) : Member I D :=
  if member.identity.isNone && !member.failed then { member with failed := true } else member

/-- `extract_annotation_members`. -/
def run (digest : I → Split → Nat → D) (archive : I) (delivery : Nat)
    (split : Split → SplitState I D) (attempt : Attempt I E) :
    Extraction I D × Option (Fault E) :=
  match (begin archive split).walk digest archive delivery attempt.ending 0 attempt.entries with
  | (stopped, some fault) => (stopped, some fault)
  | (ended, none) =>
      ({ ended with members := fun which => (ended.members which).map absent }, none)

end Extraction

end Annotations

open Annotations

/-- The cache while `settle` runs or waits to: its splits, whether a download is pending, and
whether the owner has been warned. -/
structure CocoAnnotationCache (I D : Type) where
  split : Split → SplitState I D
  pending : Bool
  warnedUnavailable : Bool

namespace CocoAnnotationCache

variable {I D E : Type} [DecidableEq I] [DecidableEq D]

def mapSplits (cache : CocoAnnotationCache I D) (f : SplitState I D → SplitState I D) :
    CocoAnnotationCache I D :=
  { cache with split := fun which => f (cache.split which) }

def anySplit (cache : CocoAnnotationCache I D) (p : SplitState I D → Bool) : Bool :=
  [Split.validation, .train].any fun which => p (cache.split which)

def requiredMissing (cache : CocoAnnotationCache I D) : Bool :=
  cache.anySplit SplitState.requiredMissing

def invalidateMissing (cache : CocoAnnotationCache I D) : CocoAnnotationCache I D :=
  cache.mapSplits SplitState.invalidateMissing

def warnUnavailable (cache : CocoAnnotationCache I D) : CocoAnnotationCache I D :=
  { cache with warnedUnavailable := true }

/-- `settle_missing_splits`: nothing is pending any more, and what is missing stays so. -/
def settleMissingSplits (cache : CocoAnnotationCache I D) : CocoAnnotationCache I D :=
  { cache.mapSplits SplitState.settleMissing with pending := false }

/-- `download_unavailable`. -/
def downloadUnavailable (cache : CocoAnnotationCache I D) (cancelled : Option E) :
    CocoAnnotationCache I D × Except (Fault E) Unit :=
  match cancelled with
  | some exception => (cache, .error (.raised exception))
  | none =>
      if cache.requiredMissing then (cache, .error .sourceUnavailable)
      else (cache.settleMissingSplits.warnUnavailable, .ok ())

/-- A cache as it is constructed, over whatever files there are. -/
def construct (admission : Split → CocoSplitAdmission) (generation : Split → Nat)
    (files : Split → SplitFiles I D) : CocoAnnotationCache I D where
  split which := ⟨admission which, none, generation which, files which, []⟩
  pending := false
  warnedUnavailable := false

/-- `discover`; `found` is the digest of a cached index that could be read. -/
def discover (cache : CocoAnnotationCache I D) (found : Split → Option D) :
    CocoAnnotationCache I D :=
  let split := fun which =>
    let state := cache.split which
    if state.admission = .unselected then state
    else
      match found which with
      | none => { state with index := none }
      | some digest => SplitState.publish { state with index := some ⟨digest, none⟩ } true
  { cache with
    split
    pending := [Split.validation, .train].any fun which => (split which).missing }

end CocoAnnotationCache

namespace Annotations

/-- `settle` between two attempts: the archive it extracts from, how many repairs delivered one, and
the count of completed indexes. -/
structure Settling (I D : Type) where
  cache : CocoAnnotationCache I D
  archive : I
  deliveries : Nat
  completed : Nat

/-- An attempt once its stream is closed and its parsers have returned. -/
structure Joined (I D E : Type) where
  settling : Settling I D
  streamError : Bool
  failed : Bool
  fatal : Option E

namespace Settling

variable {I D E : Type} [DecidableEq I] [DecidableEq D]

def training (settling : Settling I D) (which : Split) : Bool :=
  (settling.cache.split which).missing

/-- What became of a split whose parser was started. -/
def parse (extraction : Extraction I D) (settling : Settling I D) (attempt : Attempt I E)
    (which : Split) : SplitState I D × Option (Except (Fault E) Unit) :=
  let state := { settling.cache.split which with files := extraction.files which }
  match (extraction.members which).bind Member.identity with
  | none => (state, none)
  | some (digest, source) =>
      let (built, result) := state.build digest source (attempt.parsed which)
      (built, some result)

def raisedIn : Option (Except (Fault E) Unit) → Option E
  | some (.error (.raised exception)) => some exception
  | _ => none

def rejected : Option (Except (Fault E) Unit) → Bool
  | some (.error .sourceUnavailable) => true
  | _ => false

def attemptOnce (digest : I → Split → Nat → D) (settling : Settling I D) (attempt : Attempt I E) :
    Joined I D E :=
  let (extraction, stop) :=
    Extraction.run digest settling.archive settling.deliveries settling.cache.split attempt
  let parsed := fun which => settling.parse extraction attempt which
  let fatal := (raisedIn (parsed .validation).2).or (raisedIn (parsed .train).2)
  { settling := { settling with
      cache := { settling.cache with split := fun which => (parsed which).1 }
      completed := settling.completed + [Split.validation, .train].countP fun which =>
        (parsed which).2.any fun result => result.isOk }
    streamError := stop.isSome
    failed := stop.isSome || [Split.validation, .train].any fun which =>
      (extraction.members which).any Member.failed || rejected (parsed which).2
    fatal :=
      match stop with
      | some (.raised exception) => some exception
      | _ => fatal }

/-- `withdraw_attempt`: only the splits that this attempt looked for can depend on its bytes. -/
def withdrawAttempt (training : Split → Bool) (settling : Settling I D) : Settling I D :=
  let depends := fun which => training which && (settling.cache.split which).index.isSome
  { settling with
    cache := CocoAnnotationCache.invalidateMissing
      { settling.cache with
        split := fun which =>
          if depends which then (settling.cache.split which).withdraw
          else settling.cache.split which }
    completed := settling.completed - [Split.validation, .train].countP depends }

def withCache (settling : Settling I D) (f : CocoAnnotationCache I D → CocoAnnotationCache I D) :
    Settling I D :=
  { settling with cache := f settling.cache }

/-- A failed attempt: a broken stream takes what was built from it along. -/
def afterFailure (training : Split → Bool) (joined : Joined I D E) : Settling I D :=
  if joined.streamError then joined.settling.withdrawAttempt training else joined.settling

/-- A repair replaces the archive, so a sibling that the failed attempt built goes too. -/
def repaired (training : Split → Bool) (joined : Joined I D E) (archive : I) : Settling I D :=
  let settling := (afterFailure training joined).withCache (·.invalidateMissing)
  let settling := { settling with archive, deliveries := settling.deliveries + 1 }
  if joined.streamError then settling else settling.withdrawAttempt training

/-- The attempts of `settle` that are left, each with what it meets. -/
def attempts (digest : I → Split → Nat → D) :
    List (Attempt I E) → Settling I D → Settling I D × Except (Fault E) Unit
  | [], settling => (settling, .ok ())
  | attempt :: rest, settling =>
      let training := settling.training
      if !([Split.validation, .train].any training) then (settling, .ok ())
      else
        let joined := settling.attemptOnce digest attempt
        match joined.fatal with
        | some exception => (joined.settling, .error (.raised exception))
        | none =>
        if !joined.failed then (joined.settling, .ok ())
        else
          match attempt.cancelled with
          | some exception => (joined.settling, .error (.raised exception))
          | none =>
          let settling := afterFailure training joined
          match rest with
          | [] =>
              if settling.cache.requiredMissing then (settling, .error .sourceUnavailable)
              else (settling.withCache (·.warnUnavailable), .ok ())
          | _ :: _ =>
              let settling := settling.withCache (·.invalidateMissing)
              match attempt.repair with
              | .error .sourceUnavailable =>
                  let (cache, result) := settling.cache.downloadUnavailable (none : Option E)
                  ({ settling with cache }, result)
              | .error (.raised exception) => (settling, .error (.raised exception))
              | .ok archive => attempts digest rest (repaired training joined archive)

/-- `settle`, with what its three attempts meet. -/
def settle (digest : I → Split → Nat → D) (cache : CocoAnnotationCache I D) (archive : I)
    (completed : Nat) (first second third : Attempt I E) :
    Settling I D × Except (SettleFailure E) Unit :=
  let settling := ⟨cache, archive, 0, completed⟩
  if !cache.pending then (settling, .error .notPending)
  else
    match attempts digest [first, second, third] settling with
    | (settled, .error fault) => (settled, .error (.stopped fault))
    | (settled, .ok ()) => (settled.withCache (·.settleMissingSplits), .ok ())

end Settling

end Annotations

end Mmltk.Benchmark
