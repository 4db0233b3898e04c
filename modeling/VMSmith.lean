import VMSmith.Events.StreamEvents
import VMSmith.Proofs.Stream
import VMSmith.Proofs.Bus
import VMSmith.Proofs.Records
import VMSmith.Proofs.Names
import VMSmith.Proofs.ImagePaths
import VMSmith.Proofs.ImageRecords
import VMSmith.Network.PortForward
import VMSmith.Proofs.Schedules
import VMSmith.Proofs.Slots
import VMSmith.Proofs.Hooks
import VMSmith.Proofs.Parcels
import VMSmith.Proofs.Tickets
import VMSmith.Proofs.MultiHost
import VMSmith.Proofs.Ports
import VMSmith.Proofs.PortScope
import VMSmith.Proofs.SnapshotCap
import VMSmith.Proofs.Ssrf
import VMSmith.Proofs.MoveStart
import VMSmith.Proofs.Quiescent
import VMSmith.Proofs.QueryLog
import VMSmith.Proofs.BodyLog
import VMSmith.Proofs.EventSort
import VMSmith.Proofs.SessionCap
import VMSmith.Proofs.Roles
import VMSmith.Proofs.Pages
import VMSmith.Proofs.Replay
import VMSmith.Proofs.Prune
import VMSmith.Proofs.Sweeps
import VMSmith.Proofs.RunHistory
import VMSmith.Proofs.CatchUp
import VMSmith.Proofs.OwnSnapshots
import VMSmith.Proofs.SnapshotQuota
import VMSmith.Proofs.OperationProgress
import VMSmith.Proofs.Lifecycle
import VMSmith.Proofs.Addresses
import VMSmith.Proofs.IOMMU
import VMSmith.Proofs.GPUs
import VMSmith.Proofs.Deletion
import VMSmith.Proofs.Quotas
import VMSmith.Api.VMRequests
import VMSmith.Proofs.SmoothCalls
import VMSmith.Proofs.Updates
import VMSmith.Lib.Metered
import VMSmith.Api.RateLimit
import VMSmith.Proofs.RateLimit
import VMSmith.Lib.Int64
import VMSmith.Storage.OVF
import VMSmith.Proofs.OVFUnits
import VMSmith.Lib.CleanPath
import VMSmith.Storage.OVA
import VMSmith.Proofs.OVAExtract
import VMSmith.Lib.Fields
import VMSmith.Host.Mounts
import VMSmith.Proofs.Mounts
import VMSmith.Lib.RingBuffer
import VMSmith.Metrics.Collector
import VMSmith.Proofs.Rates
import VMSmith.Metrics.Sweeps
import VMSmith.Proofs.Attribution
import VMSmith.Lib.CleanText
import VMSmith.Config.LocationText
import VMSmith.Proofs.LocationText
import VMSmith.Lib.Runes
import VMSmith.Lib.Reader
import VMSmith.Api.Guacd
import VMSmith.Proofs.Guacd
import VMSmith.Lib.Heap
import VMSmith.Metrics.Ring
import VMSmith.Proofs.Ring
import VMSmith.Types.ListSort
import VMSmith.Proofs.ListSort
import VMSmith.Lib.FileTree
import VMSmith.Lib.FileCalls
import VMSmith.VM.DirRelocate
import VMSmith.Proofs.DirRelocate
import VMSmith.Lib.Xml
import VMSmith.Lib.XmlFields
import VMSmith.Storage.OVFXml
import VMSmith.Proofs.OVFRoundTrip
import VMSmith.Lib.Lines
import VMSmith.Lib.JsonLine
import VMSmith.Events.Wire
import VMSmith.Proofs.EventWire
import VMSmith.Proofs.Reports
import VMSmith.Network.FilterSys
import VMSmith.Proofs.PortFilter
import VMSmith.Lib.Draws
import VMSmith.VM.AdminPassword
import VMSmith.Proofs.AdminPassword
