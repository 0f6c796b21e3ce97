import Mmltk.Annotation.MaskStroke
import Mmltk.Assignment.LsapSound
import Mmltk.Benchmark.AnnotationRuns
import Mmltk.Benchmark.OrdinaryRuns
import Mmltk.Benchmark.SegmentedRuns
import Mmltk.Catalog.KeypointTransfer
import Mmltk.Coconut.PoolRuns
import Mmltk.Coconut.RecoveryApplied
import Mmltk.Coconut.SegmentDecode
import Mmltk.Compile.ArenaBankRuns
import Mmltk.Compile.FileWorkSettled
import Mmltk.Compile.ProgressTurns
import Mmltk.Compiled.AnnotationRoundTrip
import Mmltk.Compiled.CompactionCorrect
import Mmltk.Compiled.ReadImages
import Mmltk.Concurrency.WorkerPool
import Mmltk.Dataset.MaskRollback
import Mmltk.Evaluation.EncodedMask
import Mmltk.Evaluation.EvaluateImg
import Mmltk.Explore.CacheConsistency
import Mmltk.Frontend.Agreement
import Mmltk.Loading.LoaderDelivery
import Mmltk.Sampling.Reordered
import Mmltk.Settings.SettingsRuns
import Mmltk.Storage.StagedRuns
import Mmltk.Storage.VectoredWrite
import Mmltk.Training.DataPlanEpoch
import Mmltk.Training.GradientLifetime
import Mmltk.Training.RunHistoryPages
import Mmltk.Transport.OutboundOrder
import Mmltk.Transport.PendingAgreement
import Mmltk.ViewModel.RequestRuns
import Mmltk.ViewModel.SnapshotErrors
import Mmltk.Wire.Structural
