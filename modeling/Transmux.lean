import Transmux.CommandLine.Workspace
import Transmux.Main
import Transmux.Proofs.DocumentReading
import Transmux.Proofs.RemuxedStream
import Transmux.Proofs.TruncatedRecording
import Transmux.Proofs.DocumentWalks
import Transmux.Proofs.GranulePositions
import Transmux.Proofs.ClusteredDocument
import Transmux.Proofs.OpenClusters
import Transmux.Proofs.CutDocument
import Transmux.Proofs.SpanPlaces
import Transmux.Proofs.BlockFindings
import Transmux.Proofs.StrictPolicy
import Transmux.Proofs.AudioTrack
import Transmux.Proofs.DamagedCluster
import Transmux.Proofs.PageStreams
import Transmux.Proofs.RemuxOutcome
import Transmux.Proofs.TrackFilter
import Transmux.Proofs.ChecksumRemainder
import Transmux.Proofs.BurstErrors
import Transmux.Proofs.FewestPages
import Transmux.Proofs.OpusHeaders
import Transmux.Proofs.IdentificationHeader
import Transmux.Proofs.CommandSteps
import Transmux.Proofs.ConvertEffects
import Transmux.Proofs.InspectedStreams
import Transmux.Proofs.ChecksumPolynomial
import Transmux.Proofs.VisitedElements
import Transmux.Proofs.AudioSettings
import Transmux.Proofs.PacketSlices
import Transmux.Proofs.SoundIssues
import Transmux.Proofs.CutStreams
import Transmux.Proofs.CheckedPages
import Transmux.Proofs.PagePackets
import Transmux.Proofs.PageChecksums
import Transmux.Proofs.ConversionLog
import Transmux.Proofs.BlockAccounts
import Transmux.Proofs.VintCodes
