import SignalDesk.Codec.Report
import SignalDesk.DeskFile
import SignalDesk.EntryDump
import SignalDesk.Json.Printer
import SignalDesk.Json.Reader
import SignalDesk.Proofs.AcceptedSignals
import SignalDesk.Proofs.BatchSelection
import SignalDesk.Proofs.Causality
import SignalDesk.Proofs.CycleSections
import SignalDesk.Proofs.Replay
import SignalDesk.Proofs.Withdrawal
import SignalDesk.Proofs.MapContents
import SignalDesk.Proofs.ParameterEncoding
import SignalDesk.Proofs.Calendar
import SignalDesk.Proofs.FingerprintLog
import SignalDesk.Proofs.InstantText
import SignalDesk.Proofs.JsonForm
import SignalDesk.Proofs.SnapshotDocuments
import SignalDesk.Proofs.ComputedSeries
import SignalDesk.Proofs.SignalDocuments
import SignalDesk.Proofs.ReportDocuments
import SignalDesk.Proofs.RoundingInterval
import SignalDesk.Proofs.WrittenNumbers
import SignalDesk.Proofs.IndicatorSharing
import SignalDesk.Proofs.RequiredSeries
import SignalDesk.Proofs.DeskBuilding
import SignalDesk.Proofs.IndicatorPositions
import SignalDesk.Proofs.RegistryInvariant
import SignalDesk.Proofs.CommandOutcomes
import SignalDesk.Proofs.ArrivalOrder
import SignalDesk.Proofs.DoubleRounding
import SignalDesk.Proofs.RoundedDouble
import SignalDesk.Proofs.DoubleArithmetic
import SignalDesk.Proofs.SpreadSign
import SignalDesk.Proofs.FlatSeries
import SignalDesk.Proofs.FlatMarket
import SignalDesk.Proofs.TickPrices
import SignalDesk.Proofs.RankOrder
import SignalDesk.Proofs.SymbolGroups
import SignalDesk.Proofs.RecoverableFailures
import SignalDesk.Proofs.TreeForm
import SignalDesk.Proofs.ConfigDocuments
import SignalDesk.Proofs.TomlTree
import SignalDesk.Proofs.TomlText
import SignalDesk.Proofs.DecimalReading
import SignalDesk.Proofs.TomlLines
import SignalDesk.Proofs.TomlTables
import SignalDesk.Proofs.ConfigRoundTrip
import SignalDesk.Proofs.ChannelBreakout
import SignalDesk.Proofs.OmittedDefaults
import SignalDesk.Proofs.PercentilePlaces
import SignalDesk.Proofs.ThresholdBounds
import SignalDesk.Proofs.VolatilityMultiset
import SignalDesk.Proofs.WiderBand
import SignalDesk.Proofs.RecentValues
import SignalDesk.Proofs.NonnegativeDoubles
import SignalDesk.Proofs.Reckoning
import SignalDesk.Proofs.MonotoneDoubles
import SignalDesk.Proofs.StrongerEvidence
import SignalDesk.Proofs.TieBreaks
import SignalDesk.Proofs.BreakoutLevels
import SignalDesk.Proofs.FiniteThresholds
import SignalDesk.Proofs.FiniteEvidence
import SignalDesk.Proofs.MissingSeries
import SignalDesk.Proofs.ValidParameters
import SignalDesk.Proofs.ComputedPlaces
import SignalDesk.Proofs.ChannelOrder
import SignalDesk.Proofs.LooserThresholds
import SignalDesk.Proofs.TrendDirection
import SignalDesk.Proofs.OscillatorScale
import SignalDesk.Proofs.TrueRanges
import SignalDesk.Proofs.IndependentCommands
import SignalDesk.Proofs.OverrideCalls
import SignalDesk.Proofs.ConcernedSettings
import SignalDesk.Proofs.SymbolBatches
import SignalDesk.Proofs.AverageRange
import SignalDesk.Proofs.MirroredCloses
import SignalDesk.Proofs.LeadingGaps
