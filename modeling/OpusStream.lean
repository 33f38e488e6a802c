import OpusStream.Duration
import OpusStream.File
import OpusStream.Proofs.PageScan
import OpusStream.Proofs.PageOrder
import OpusStream.Proofs.PageTiling
import OpusStream.Proofs.HeaderFaults
import OpusStream.Proofs.Outcome
import OpusStream.Proofs.StorageOrder
import OpusStream.Proofs.HeaderPackets
import OpusStream.Proofs.CommentPacket
import OpusStream.Proofs.RoundTrip
import OpusStream.Proofs.Progress
import OpusStream.Proofs.Continuation
import OpusStream.Proofs.IgnoredFields
import OpusStream.Proofs.PageFormat
import OpusStream.Proofs.HeadPacket
import OpusStream.Proofs.Diagnostics
import OpusStream.Proofs.TruncationReports
import OpusStream.Proofs.LacedStream
import OpusStream.Proofs.CommentExtent
import OpusStream.Proofs.Utf8Faithful
import OpusStream.Proofs.CommentTexts
import OpusStream.Proofs.Utf8Split
import OpusStream.Proofs.TagOctets
import OpusStream.Proofs.UppercaseFixed
import OpusStream.Proofs.TagIndex
import OpusStream.Proofs.TagNormalForm
import OpusStream.Proofs.ExactFloat
import OpusStream.Proofs.HeadFormat
import OpusStream.Proofs.CommentScan
import OpusStream.Proofs.DurationSums
import OpusStream.Proofs.PageDurations
import OpusStream.Proofs.PositionalFields
import OpusStream.Proofs.MarkerTests
import OpusStream.Proofs.LogicalStreams
