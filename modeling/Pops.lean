import Pops.FaceTransferProofs
import Pops.RegionTransferProofs
import Pops.BergerRigoutsosProofs
import Pops.HierarchyPlanProofs
import Pops.RegridProofs
import Pops.ClockProofs
import Pops.FaceFluxLedgerProofs
import Pops.ClockScheduleProofs
import Pops.MetricRefluxProofs
import Pops.AnalyticExpressionProofs
import Pops.FluxExpressionProofs
import Pops.HaloExchangeProofs
import Pops.ProgramInstallProofs
import Pops.AmrCheckpointRoundTrip
import Pops.CacheManagerProofs
import Pops.CadenceWindowProofs
import Pops.CanonicalValueProofs
import Pops.TemporalExecutorProofs
import Pops.AmrRuntimeProofs
import Pops.MomentFluxProofs
import Pops.MethodCertificateProofs
import Pops.LoopEmissionProofs
import Pops.FieldSolvePassProofs
import Pops.ErrorControlledDtProofs
import Pops.ConsumerTransactionProofs
import Pops.CheckpointCursorsProofs
import Pops.IdentityEncodingProofs
import Pops.StepEnvelopeProofs
import Pops.EveryDtScheduleProofs
import Pops.HistoryReplayProofs
import Pops.AuxiliaryCheckpoint
import Pops.AuxiliaryCheckpointProofs
import Pops.Authoring
import Pops.AuthoringProofs
import Pops.InterfaceScheduler
import Pops.InterfaceApplication
import Pops.InterfaceApplicationProofs
import Pops.InterfaceConservationProofs
import Pops.Rows
import Pops.TemporalSchedule
import Pops.TemporalScheduleProofs
import Pops.TemporalManifestProofs
import Pops.EmbeddedTransport
import Pops.EmbeddedTransportProofs
import Pops.HistoryPersistence
import Pops.HistoryPersistenceProofs
import Pops.LoadBalanceProvider
import Pops.LoadBalanceProviderProofs
import Pops.HistoryDeclaration
import Pops.HistoryDeclarationProofs
import Pops.ScalarLiteral
import Pops.ScalarLiteralProofs
import Pops.ConjugateGradients
import Pops.SolveCg
import Pops.SolveCgProofs
import Pops.ScratchPlan
import Pops.ScratchPlanProofs
import Pops.HistoryCapture
import Pops.HistoryCaptureProofs
import Pops.PhysicalBoundary
import Pops.PhysicalBoundaryProofs
import Pops.BoundaryRegionProofs
import Pops.PhysicalFillProofs
import Pops.BoundaryScheduleProofs
import Pops.ClockRejectionProofs
import Pops.RationalRangeProofs
import Pops.DenseInverse
import Pops.DenseInverseProofs
import Pops.SpectralFunction
import Pops.RoeSpectral
import Pops.RoeSpectralProofs
import Pops.PatchTopology
import Pops.PatchTopologyProofs
import Pops.CadenceDispatch
import Pops.CadenceDispatchProofs
import Pops.CompositeReduction
import Pops.CompositeReductionProofs
import Pops.CompositeReductionRuns
import Pops.CutGeometry
import Pops.CutGeometryProofs
import Pops.CutMeasures
import Pops.CutRestriction
import Pops.RationalComparison
import Pops.Throws
import Pops.BoxArrayTiling
import Pops.Odometer
import Pops.BoxHash
import Pops.BoxHashProofs
import Pops.CurveBalance
import Pops.ListScheduling
import Pops.LptBalance
import Pops.BergerRigoutsosTermination
import Pops.BergerRigoutsosDistribution
import Pops.PeerGroups
import Pops.CopySchedule
import Pops.CopyScheduleProofs
import Pops.ExactContract
import Pops.ExactContractProofs
import Pops.HistoryRing
import Pops.HistoryRingProofs
import Pops.CellTransfer
import Pops.CellTransferProofs
import Pops.FifthOrderProofs
import Pops.TemporalInterpolation
import Pops.TransferFootprint
import Pops.StrongKleene
import Pops.PreparedTagging
import Pops.PreparedTaggingProofs
import Pops.AnalyticAcceptance
import Pops.PersistentTagging
import Pops.PersistentTaggingProofs
import Pops.Refinement
import Pops.RefinementProofs
