import Mathlib.Algebra.Group.Nat.Defs
import Mmltk.Foundation.Lines
import Mmltk.Foundation.Outcome

namespace Mmltk.Training

/-! The history of a training run, read page by page while its file still grows. -/

def kTrainingRunFormat : Nat := 3

def kTrainingHistoryPageSize : Nat := 32

def kTrainingRecordBytes : Nat := 512 * 1024

/-- A page ends with the record that reaches this many bytes. -/
def pageBytes : Nat := 2 * kTrainingRecordBytes

def newline : UInt8 := 10

inductive HistoryError where
  | runtime (message : String)
  | invalidArgument (message : String)
  deriving DecidableEq, Repr

/-- `facts` is what a record says of the training, which the reader does not look at. -/
structure TrainingRecord (V : Type) where
  formatVersion : Nat
  runId : String
  attemptId : String
  facts : V
  deriving DecidableEq, Repr

structure FileSnapshot where
  device : Nat
  inode : Nat
  bytes : Nat
  deriving DecidableEq, Repr

structure TrainingHistoryQuery where
  generation : Nat
  cursor : Nat
  count : Nat
  deriving DecidableEq, Repr

structure TrainingHistoryPage (V : Type) where
  generation : Nat
  nextCursor : Nat
  more : Bool
  records : List (TrainingRecord V)
  deriving DecidableEq, Repr

/-- `run` is the identity of the run that is opened. -/
structure TrainRunStore where
  generation : Nat
  run : Option String
  metricsIdentity : FileSnapshot
  deriving DecidableEq, Repr

/-- The bytes up to a newline or the end, whether there was a newline, and what comes after. -/
def takeLine : List UInt8 → List UInt8 → Except HistoryError (List UInt8 × Bool × List UInt8)
  | line, [] => .ok (line, false, [])
  | line, byte :: rest =>
      if byte = newline then .ok (line, true, rest)
      else if line.length = kTrainingRecordBytes then
        .error (.runtime "training history record exceeds byte limit")
      else takeLine (line ++ [byte]) rest

section

variable {V : Type} (decode : List UInt8 → Except HistoryError (TrainingRecord V))

def compatible (run : String) (record : TrainingRecord V) : Bool :=
  record.formatVersion = kTrainingRunFormat && record.runId = run && record.attemptId ≠ ""

/-- `remaining` records are still wanted; the number is of the bytes that were read. -/
def readLoop (run : String) : Nat → Nat → List UInt8 → TrainingHistoryPage V →
    Except HistoryError (TrainingHistoryPage V × Nat)
  | 0, consumed, _, page => .ok (page, consumed)
  | remaining + 1, consumed, bytes, page =>
      if pageBytes ≤ consumed then .ok (page, consumed)
      else do
        let (line, complete, rest) ← takeLine [] bytes
        let consumed := consumed + line.length + (if complete then 1 else 0)
        if !complete then return (page, consumed)
        else if pageBytes < consumed then return (page, consumed)
        else
          let record ← decode line
          if !compatible run record then
            .error (.runtime "training history record belongs to an incompatible run")
          else
            readLoop run remaining consumed rest
              { page with
                nextCursor := page.nextCursor + (line.length + 1)
                records := page.records ++ [record] }

namespace TrainRunStore

/-- `contents` is what the open stream reads until it meets its end. -/
def read (store : TrainRunStore) (identity : FileSnapshot) (contents : List UInt8)
    (query : TrainingHistoryQuery) :
    Except HistoryError (TrainingHistoryPage V × TrainRunStore) :=
  match store.run with
  | none => .error (.runtime "training history query refers to a stale directory")
  | some run =>
      if query.generation ≠ store.generation then
        .error (.runtime "training history query refers to a stale directory")
      else if query.count = 0 ∨ kTrainingHistoryPageSize < query.count then
        .error (.invalidArgument "invalid training history page size")
      else if identity.device ≠ store.metricsIdentity.device ∨
          identity.inode ≠ store.metricsIdentity.inode ∨
          identity.bytes < store.metricsIdentity.bytes then
        .error (.runtime "opened history was replaced or truncated")
      else if identity.bytes < query.cursor ∨ 2 ^ 63 - 1 < query.cursor then
        .error (.invalidArgument "training history cursor is outside the stream")
      else if query.cursor ≠ 0 ∧ contents[query.cursor - 1]? ≠ some newline then
        .error (.invalidArgument "training history cursor is not a record boundary")
      else do
        let (page, consumed) ← readLoop decode run query.count 0 (contents.drop query.cursor)
          { generation := store.generation, nextCursor := query.cursor, more := false,
            records := [] }
        return ({ page with
          more := page.nextCursor < identity.bytes &&
            ((!page.records.isEmpty && pageBytes ≤ consumed) ||
              page.records.length = query.count) },
          { store with metricsIdentity := identity })

end TrainRunStore

/-- One read of a page: the file when its size is sampled, and what the stream reads of it. -/
structure Poll where
  count : Nat
  identity : FileSnapshot
  contents : List UInt8

/-- Every read goes on at the cursor that the one before returned. -/
def follow (store : TrainRunStore) (cursor : Nat) :
    List Poll → Except HistoryError (List (TrainingHistoryPage V))
  | [] => .ok []
  | poll :: polls => do
      let (page, store) ← store.read decode poll.identity poll.contents
        ⟨store.generation, cursor, poll.count⟩
      let pages ← follow store page.nextCursor polls
      return page :: pages

end

end Mmltk.Training
