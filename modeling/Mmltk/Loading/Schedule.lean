import Mmltk.Foundation.Slices

namespace Mmltk.Loading

open Mmltk.Foundation

/-! The order of an epoch's samples and the batches each rank draws from it. -/

def shuffleChunkImages : Nat := 8
def shuffleBlockImages : Nat := 256

structure ShuffleLayout where
  chunkImages : Nat
  chunksPerBlock : Nat
  numChunks : Nat
  numBlocks : Nat
  deriving DecidableEq, Repr

def shuffleLayout (images batchSize : Nat) : ShuffleLayout :=
  let chunkImages := min images (max shuffleChunkImages batchSize)
  let chunksPerBlock := max 1 (shuffleBlockImages / chunkImages)
  let numChunks := divideUp images chunkImages
  ⟨chunkImages, chunksPerBlock, numChunks, divideUp numChunks chunksPerBlock⟩

/-- `std::mt19937_64` and `std::shuffle`, which permutes. -/
structure Shuffler where
  Engine : Type
  seeded : Nat → Engine
  shuffle : Engine → List Nat → List Nat × Engine
  shuffle_perm : ∀ engine items, List.Perm (shuffle engine items).1 items

namespace Shuffler

variable (shuffler : Shuffler)

/-- The images of one chunk, by their place among the eligible ones. -/
def chunkImageRange (layout : ShuffleLayout) (images chunk : Nat) : List Nat :=
  let imageBegin := chunk * layout.chunkImages
  List.range' imageBegin (min (imageBegin + layout.chunkImages) images - imageBegin)

def blockChunkRange (layout : ShuffleLayout) (block : Nat) : List Nat :=
  let chunkBegin := block * layout.chunksPerBlock
  List.range' chunkBegin (min (chunkBegin + layout.chunksPerBlock) layout.numChunks - chunkBegin)

/-- The blocks in their shuffled order, each with its chunks shuffled. -/
def shuffleBlocks (layout : ShuffleLayout) (images : Nat) :
    List Nat → shuffler.Engine → List Nat
  | [], _ => []
  | block :: rest, rng =>
      let chunks := shuffler.shuffle rng (blockChunkRange layout block)
      chunks.1.flatMap (chunkImageRange layout images) ++
        shuffleBlocks layout images rest chunks.2

def buildBlockShuffledOrder (eligible : List Nat) (batchSize : Nat) (rng : shuffler.Engine) :
    Except String (List Nat) :=
  if eligible = [] then .ok []
  else
    let layout := shuffleLayout eligible.length batchSize
    let blocks := shuffler.shuffle rng (List.range layout.numBlocks)
    let images := shuffler.shuffleBlocks layout eligible.length blocks.1 blocks.2
    if images.length ≠ eligible.length then
      .error "block shuffle failed to populate the full epoch order"
    else .ok (images.map fun image => eligible.getD image 0)

/-! Every shuffle is a permutation of the eligible samples. -/

theorem chunkImageRange_eq (layout : ShuffleLayout) (images chunk : Nat) :
    chunkImageRange layout images chunk = slice (List.range images) layout.chunkImages chunk :=
  (slice_range images layout.chunkImages chunk).symm

theorem blockChunkRange_eq (layout : ShuffleLayout) (block : Nat) :
    blockChunkRange layout block = slice (List.range layout.numChunks) layout.chunksPerBlock block :=
  (slice_range layout.numChunks layout.chunksPerBlock block).symm

theorem shuffleBlocks_perm (layout : ShuffleLayout) (images : Nat) (blocks : List Nat)
    (rng : shuffler.Engine) :
    List.Perm (shuffler.shuffleBlocks layout images blocks rng)
      ((blocks.flatMap (blockChunkRange layout)).flatMap (chunkImageRange layout images)) := by
  induction blocks generalizing rng with
  | nil => exact .refl _
  | cons block rest ih =>
      rw [shuffleBlocks, List.flatMap_cons, List.flatMap_append]
      exact .append (.flatMap_right _ (shuffler.shuffle_perm rng _)) (ih _)

theorem images_perm {images batchSize : Nat} (himages : 0 < images) (hbatch : 0 < batchSize)
    (rng : shuffler.Engine) :
    let layout := shuffleLayout images batchSize
    let blocks := shuffler.shuffle rng (List.range layout.numBlocks)
    List.Perm (shuffler.shuffleBlocks layout images blocks.1 blocks.2) (List.range images) := by
  intro layout blocks
  have hchunk : 0 < layout.chunkImages :=
    Nat.lt_min.mpr ⟨himages, Nat.lt_of_lt_of_le hbatch (Nat.le_max_right _ _)⟩
  have hblock : 0 < layout.chunksPerBlock := Nat.lt_of_lt_of_le Nat.one_pos (Nat.le_max_left _ _)
  have hchunks : (List.range layout.numBlocks).flatMap (blockChunkRange layout) =
      List.range layout.numChunks := by
    have hall := slices_flatten_all (List.range layout.numChunks) hblock
    rw [List.length_range] at hall
    rw [funext (blockChunkRange_eq layout)]
    exact hall
  have hrange : (List.range layout.numChunks).flatMap (chunkImageRange layout images) =
      List.range images := by
    have hall := slices_flatten_all (List.range images) hchunk
    rw [List.length_range] at hall
    rw [funext (chunkImageRange_eq layout images)]
    exact hall
  have hshuffled := (shuffler.shuffleBlocks_perm layout images blocks.1 blocks.2).trans
    (.flatMap_right _ (.flatMap_right _ (shuffler.shuffle_perm rng _)))
  rwa [hchunks, hrange] at hshuffled

theorem map_getD_range (items : List Nat) :
    (List.range items.length).map (fun index => items.getD index 0) = items := by
  apply List.ext_getElem
  · rw [List.length_map, List.length_range]
  · intro index hmap hitems
    rw [List.getElem_map, List.getElem_range, List.getD_eq_getElem?_getD,
      List.getElem?_eq_getElem hitems, Option.getD_some]

theorem buildBlockShuffledOrder_perm (eligible : List Nat) {batchSize : Nat} (hbatch : 0 < batchSize)
    (rng : shuffler.Engine) :
    ∃ order, shuffler.buildBlockShuffledOrder eligible batchSize rng = .ok order ∧
      List.Perm order eligible := by
  rw [buildBlockShuffledOrder]
  by_cases hempty : eligible = []
  · rw [if_pos hempty]
    exact ⟨[], rfl, hempty ▸ .refl _⟩
  · have himages : 0 < eligible.length := List.length_pos_iff.mpr hempty
    have hperm := shuffler.images_perm himages hbatch rng
    have hlength := hperm.length_eq
    rw [List.length_range] at hlength
    rw [if_neg hempty]
    simp only
    rw [if_neg (fun hne => hne hlength)]
    refine ⟨_, rfl, ?_⟩
    have hmap := hperm.map fun image => eligible.getD image 0
    rwa [map_getD_range] at hmap

end Shuffler

/-! Batches. -/

structure LoaderConfig where
  batchSize : Nat
  shuffle : Bool
  batchShardRank : Nat
  batchShardCount : Nat
  dropLast : Bool
  deriving DecidableEq, Repr

/-- The checks of `validate_config` on these fields. -/
structure LoaderConfig.Valid (config : LoaderConfig) : Prop where
  batchSize : 0 < config.batchSize
  batchShardRank : config.batchShardRank < config.batchShardCount

structure IndexSchedule where
  imageIndices : List Nat
  drawKeys : List Nat
  microbatchKeys : List Nat
  deriving DecidableEq, Repr

/-- What an epoch reads: the loader's own order, or an explicit schedule from an offset on. -/
structure EpochSource where
  order : List Nat
  explicitSchedule : Option IndexSchedule
  resumeOffset : Nat
  deriving DecidableEq, Repr

namespace EpochSource

variable (source : EpochSource) (config : LoaderConfig)

def indices : List Nat :=
  match source.explicitSchedule with
  | some schedule => schedule.imageIndices
  | none => source.order

/-- The `batches` of `rebuild_schedule`. -/
def batches : Nat :=
  if config.dropLast then source.indices.length / config.batchSize
  else divideUp source.indices.length config.batchSize

/-- The `batch_count` of `rebuild_schedule`. -/
def batchCount : Nat :=
  match source.explicitSchedule with
  | some _ => dealt (source.batches config) 1 (source.resumeOffset / config.batchSize)
  | none => dealt (source.batches config) config.batchShardCount config.batchShardRank

def batchStart (batch : Nat) : Nat :=
  match source.explicitSchedule with
  | some _ => source.resumeOffset + batch * config.batchSize
  | none => (config.batchShardRank + batch * config.batchShardCount) * config.batchSize

/-- `std::min(config.batch_size, indices().size() - slot.start)` -/
def batchImages (batch : Nat) : Nat :=
  min config.batchSize (source.indices.length - source.batchStart config batch)

/-- The samples of a batch. -/
def batchIndices (batch : Nat) : List Nat :=
  (source.indices.drop (source.batchStart config batch)).take (source.batchImages config batch)

end EpochSource

/-! The batches of all ranks are the slices of one order, each dealt to one rank. -/

/-- The samples of an order that are in some batch: all but those of a final partial batch that
is dropped. -/
def LoaderConfig.kept (config : LoaderConfig) (images : Nat) : Nat :=
  if config.dropLast then images / config.batchSize * config.batchSize else images

namespace EpochSource

variable {source : EpochSource} {config : LoaderConfig}

end EpochSource

end Mmltk.Loading
