import OpcServer.Core.Translator
import OpcServer.Adapters.DecodeBounds
import OpcServer.Adapters.ResponseMatching
import OpcServer.Core.Dispatcher
import OpcServer.Core.FlushWrites
import OpcServer.Lib.Transition
import OpcServer.Lib.CommandLine
import OpcServer.Core.Ledger
import OpcServer.Core.WriteAccounting
import OpcServer.Core.FlushSteps
import OpcServer.Core.Interleaving
import OpcServer.Core.QueueBound
import OpcServer.Core.WriteOrder
import OpcServer.Core.StoredValue
import OpcServer.Core.DeviceContents
import OpcServer.Core.PollDue
import OpcServer.Core.PollDueAsync
import OpcServer.Project.Json
import OpcServer.Project.Load
import OpcServer.Project.Validate
import OpcServer.Project.LoadText
import OpcServer.Project.Consistency
import OpcServer.Project.Schema
import OpcServer.Core.PollReads
import OpcServer.Core.Cells
import OpcServer.Core.PollAgreement
import OpcServer.Core.AddressBounds
import OpcServer.Core.AddressBase
import OpcServer.Core.WritesFirst
import OpcServer.App.CliOptions
import OpcServer.Adapters.OpcUaServer
import OpcServer.Adapters.TcpLink
import OpcServer.Adapters.TcpAligned
import OpcServer.Adapters.TcpServing
import OpcServer.Adapters.TcpDeadline
import OpcServer.Lib.EditHistory
import OpcServer.Studio.Document
import OpcServer.Studio.Saving
import OpcServer.Lib.OrderedMap
import OpcServer.Studio.LiveValues
import OpcServer.Studio.LiveTable
import OpcServer.App.ServedIdentity
import OpcServer.App.EndpointStrand
import OpcServer.App.OneTransaction
import OpcServer.App.DataSourceWrite
import OpcServer.App.ConfirmedWrite
import OpcServer.Adapters.FrameReplay
import OpcServer.Adapters.UdpLink
import OpcServer.Core.AcceptedIndex
import OpcServer.Core.DueGroups
import OpcServer.Core.Operations
import OpcServer.Core.Effects
import OpcServer.Core.Isolation
import OpcServer.Core.PollSchedule
import OpcServer.Core.LastGoodValue
import OpcServer.Core.Notifications
import OpcServer.Adapters.FakeModbus
import OpcServer.Core.Coalescing
import OpcServer.Core.IntegerCodec
import OpcServer.Core.ReadBack
import OpcServer.Adapters.FrameLog
import OpcServer.Adapters.FrameJournal
import OpcServer.Adapters.RecordReplay
import OpcServer.Adapters.RingHistorian
import OpcServer.Adapters.SqliteHistorian
import OpcServer.Lib.DecimalText
import OpcServer.Adapters.ColdText
import OpcServer.Adapters.HistorianOrder
import OpcServer.App.ServerTime
import OpcServer.Adapters.DataSource
import OpcServer.App.TypedValues
import OpcServer.Project.Integers
import OpcServer.Project.MigrateLegacy
import OpcServer.Core.MigratedReads
import OpcServer.Project.Acceptance
import OpcServer.Project.MigratedLoads
import OpcServer.Project.ImportCsv
import OpcServer.Project.ImportedTags
import OpcServer.Core.ImportedProject
import OpcServer.Lib.BrowseTree
import OpcServer.Lib.SegmentPath
import OpcServer.Project.GenNodeset
import OpcServer.Adapters.AddressSpace
import OpcServer.App.ExportedNodeset
import OpcServer.Project.NodesetIds
import OpcServer.Core.RegisterAccess
import OpcServer.Lib.Words
import OpcServer.Core.ByteOrders
import OpcServer.Core.CodecInverse
import OpcServer.Project.Profiles
import OpcServer.Lib.Coverage
import OpcServer.Project.Doctor
import OpcServer.Project.DoctorRanges
import OpcServer.Core.PolledTags
import OpcServer.Adapters.MbapFraming
import OpcServer.Adapters.RingSamples
import OpcServer.Adapters.WriteRequests
import OpcServer.Adapters.EndpointUrl
import OpcServer.Adapters.QualityCounters
import OpcServer.Adapters.SessionGauge
import OpcServer.App.Reconnect
import OpcServer.Core.ClockSteps
import OpcServer.Lib.DepthFirst
import OpcServer.Lib.FirstPaths
import OpcServer.Monitor.Browse
import OpcServer.Monitor.BrowseReach
import OpcServer.Monitor.Session
import OpcServer.Monitor.SessionBooks
import OpcServer.Monitor.SessionPace
import OpcServer.Monitor.StudioConnect
import OpcServer.Adapters.PayloadCoding
import OpcServer.Project.CsvQuoting
import OpcServer.Lib.Loop
import OpcServer.Adapters.HexScan
import OpcServer.Lib.Markup
import OpcServer.Project.NodesetText
import OpcServer.Project.NodesetReading
