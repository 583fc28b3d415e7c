import Riegeli.Library.Machine
import Riegeli.Library.Action
import Riegeli.Library.Zigzag
import Riegeli.Library.Related
import Riegeli.Core.Fault
import Riegeli.Core.Varint
import Riegeli.Core.BlockArithmetic
import Riegeli.Proofs.BlockOverhead
import Riegeli.Core.Externals
import Riegeli.Core.Headers
import Riegeli.Spec.FileFormat
import Riegeli.Core.Wire
import Riegeli.Core.FieldIteration
import Riegeli.Core.MessageWriter
import Riegeli.Core.TransposeEncoder
import Riegeli.Core.StateMachine
import Riegeli.Core.TransposeChunk
import Riegeli.Core.SimpleChunk
import Riegeli.Core.RecordWriter
import Riegeli.Core.FieldProjection
import Riegeli.Core.TransposeHeader
import Riegeli.Core.TransposeDecoder
import Riegeli.Spec.PrunedBuffers
import Riegeli.Core.ChunkReading
import Riegeli.Core.RecordReader
import Riegeli.Core.RecordStream
import Riegeli.Proofs.CanonicalVarints
import Riegeli.Spec.WireFields
import Riegeli.Spec.VarintColumns
import Riegeli.Proofs.FieldCopies
import Riegeli.Spec.FieldEvents
import Riegeli.Proofs.FieldRoundTrip
import Riegeli.Spec.MessageTrees
import Riegeli.Proofs.MessageNesting
import Riegeli.Proofs.FieldFilter
import Riegeli.Proofs.CopyVerdicts
import Riegeli.Spec.EmittedOffsets
import Riegeli.Proofs.TransitionHops
import Riegeli.Spec.MachineVisits
import Riegeli.Proofs.MachineRun
import Riegeli.Spec.DecodePasses
import Riegeli.Proofs.ImplicitLoops
import Riegeli.Proofs.TransitionReplay
import Riegeli.Proofs.TransitionCounts
import Riegeli.Proofs.StateLists
import Riegeli.Proofs.PrivateLists
import Riegeli.Proofs.PublicList
import Riegeli.Proofs.BaseIndices
import Riegeli.Proofs.StateMachineReplay
import Riegeli.Proofs.MachineLabels
import Riegeli.Proofs.CursorReads
import Riegeli.Proofs.StateEntries
import Riegeli.Proofs.BuiltNodes
import Riegeli.Proofs.PathRuns
import Riegeli.Spec.BucketRuns
import Riegeli.Proofs.BucketSplit
import Riegeli.Proofs.BufferAgreement
import Riegeli.Proofs.BufferPruning
import Riegeli.Spec.FieldTrees
import Riegeli.Spec.CollectedTags
import Riegeli.Proofs.TagCollection
import Riegeli.Proofs.BufferOrder
import Riegeli.Proofs.HeldBuffers
import Riegeli.Spec.ProjectedFields
import Riegeli.Proofs.LeafReads
import Riegeli.Proofs.CallbackChoice
import Riegeli.Proofs.FieldReplay
import Riegeli.Proofs.WriterTrace
import Riegeli.Spec.WriterRuns
import Riegeli.Proofs.WriterLayout
import Riegeli.Proofs.PaddingEnd
import Riegeli.Proofs.FailedWriter
import Riegeli.Spec.WriterLedger
import Riegeli.Proofs.WriterLedger
import Riegeli.Proofs.ChunkingPolicy
import Riegeli.Spec.ChunkWalk
import Riegeli.Proofs.StoredChunks
import Riegeli.Proofs.ChunkScan
import Riegeli.Spec.HeldRecords
import Riegeli.Proofs.ChunkSteps
import Riegeli.Spec.ReadCursor
import Riegeli.Proofs.ReadSequence
import Riegeli.Proofs.SimpleRoundTrip
import Riegeli.Proofs.HeaderParse
import Riegeli.Spec.ReaderRuns
import Riegeli.Proofs.ReaderFrame
import Riegeli.Spec.ChunkFinding
import Riegeli.Proofs.StaticReader
import Riegeli.Proofs.StaticReading
import Riegeli.Proofs.ErrorPersistence
import Riegeli.Proofs.SkippedRegions
import Riegeli.Proofs.ReaderAgreement
import Riegeli.Proofs.ReadAlong
import Riegeli.Proofs.WholeFiles
import Riegeli.Proofs.WrittenFiles
import Riegeli.Spec.FileRecords
import Riegeli.Proofs.SyncedFiles
import Riegeli.Proofs.FileRoundTrip
import Riegeli.Proofs.PaddingAlignment
import Riegeli.Spec.SimpleGrammar
import Riegeli.Proofs.OpenDecoders
import Riegeli.Proofs.SimpleGrammar
import Riegeli.Proofs.VarintAgreement
import Riegeli.Proofs.FileWalk
import Riegeli.Proofs.InspectionCalls
import Riegeli.Proofs.FormatCheck
import Riegeli.Spec.SequentialReads
import Riegeli.Proofs.SeekAgreement
import Riegeli.Proofs.RecordFiltering
import Riegeli.Proofs.ColumnExtraction
import Riegeli.Proofs.RecordReplay
import Riegeli.Proofs.RecordLimits
import Riegeli.Proofs.EncodedChunks
import Riegeli.Proofs.DecodedParts
import Riegeli.Proofs.ChunkReplay
import Riegeli.Proofs.TransposeRoundTrip
import Riegeli.Spec.FieldPaths
import Riegeli.Proofs.IncludeTrie
import Riegeli.Spec.ProjectedRecords
import Riegeli.Proofs.FieldRewriting
import Riegeli.Proofs.FieldParsing
import Riegeli.Proofs.ProjectedDecode
import Riegeli.Proofs.EmptyPathProjection
import Riegeli.Spec.FilePositions
import Riegeli.Proofs.FileChunks
import Riegeli.Proofs.PositionedReads
import Riegeli.Library.Bisection
import Riegeli.Spec.CompleteFiles
import Riegeli.Proofs.CompleteFiles
import Riegeli.Proofs.PointerScans
import Riegeli.Spec.RandomAccess
import Riegeli.Proofs.NumericSeeks
import Riegeli.Proofs.BackwardSteps
import Riegeli.Spec.RecordSearch
import Riegeli.Proofs.RecordSearch
import Riegeli.Proofs.ProjectedAccess
import Riegeli.Spec.ReaderWalks
import Riegeli.Proofs.AnchoredReaders
import Riegeli.Proofs.ReaderWalks
import Riegeli.Proofs.PositionNames
import Riegeli.Proofs.SingleDamage
import Riegeli.Proofs.MetadataReading
import Riegeli.Spec.Tailing
import Riegeli.Proofs.Tailing
import Riegeli.Proofs.TailedCalls
import Riegeli.Proofs.ProjectedFiles
import Riegeli.Library.Contract
import Riegeli.Spec.DecoderInvariants
import Riegeli.Proofs.DecoderInputs
import Riegeli.Proofs.DecoderNodes
import Riegeli.Proofs.DecoderSafety
import Riegeli.Proofs.SkippedLevels
import Riegeli.Proofs.ChunkSafety
import Riegeli.Library.Ending
import Riegeli.Spec.SoundReaders
import Riegeli.Proofs.ReaderSafety
import Riegeli.Spec.Recovery
import Riegeli.Proofs.Recovery
import Riegeli.Proofs.Damage
import Riegeli.Proofs.FilteredFiles
import Riegeli.Core.FieldHandlers
import Riegeli.Library.Dispatch
import Riegeli.Spec.FieldDelivery
import Riegeli.Proofs.FieldDelivery
import Riegeli.Spec.StreamDelivery
import Riegeli.Proofs.StreamDelivery
import Riegeli.Library.Text
import Riegeli.Core.RecordPosition
import Riegeli.Proofs.PositionText
import Riegeli.Proofs.ProjectedFilters
