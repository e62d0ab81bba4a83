import HorizonCast.Lib.BoundedChannel
import HorizonCast.Lib.Broadcast
import HorizonCast.Lib.ByteRange
import HorizonCast.Lib.Collections
import HorizonCast.Lib.Delimited
import HorizonCast.Lib.Filling
import HorizonCast.Lib.Gf2
import HorizonCast.Lib.Interval
import HorizonCast.Lib.Leases
import HorizonCast.Lib.Lines
import HorizonCast.Lib.Lossy
import HorizonCast.Lib.NalUnits
import HorizonCast.Lib.Naming
import HorizonCast.Lib.Patchwork
import HorizonCast.Lib.Reassembly
import HorizonCast.Lib.Routine
import HorizonCast.Lib.Text
import HorizonCast.Lib.Transition
import HorizonCast.Lib.UnionFind
import HorizonCast.Lib.Uri
import HorizonCast.Lib.Watch
import HorizonCast.Lib.Xml
import HorizonCast.Proofs.AddressText
import HorizonCast.Proofs.AdvertisedUrl
import HorizonCast.Proofs.Announcement
import HorizonCast.Proofs.AppSteps
import HorizonCast.Proofs.ArrivalOrder
import HorizonCast.Proofs.BodyLength
import HorizonCast.Proofs.CaptureLoop
import HorizonCast.Proofs.CastSteps
import HorizonCast.Proofs.CastingFlag
import HorizonCast.Proofs.Cli
import HorizonCast.Proofs.Clock
import HorizonCast.Proofs.Closing
import HorizonCast.Proofs.Coalesce
import HorizonCast.Proofs.Continuity
import HorizonCast.Proofs.ControlUrl
import HorizonCast.Proofs.Conversion
import HorizonCast.Proofs.Crc
import HorizonCast.Proofs.Description
import HorizonCast.Proofs.DeviceIds
import HorizonCast.Proofs.DeviceList
import HorizonCast.Proofs.Discipline
import HorizonCast.Proofs.DiscoveryService
import HorizonCast.Proofs.DiscoverySteps
import HorizonCast.Proofs.DiscoveryStop
import HorizonCast.Proofs.EncoderTimes
import HorizonCast.Proofs.Escaping
import HorizonCast.Proofs.Fields
import HorizonCast.Proofs.FrameCopy
import HorizonCast.Proofs.History
import HorizonCast.Proofs.Interleaving
import HorizonCast.Proofs.Keyframes
import HorizonCast.Proofs.LateJoin
import HorizonCast.Proofs.LimitedRange
import HorizonCast.Proofs.LiveClients
import HorizonCast.Proofs.Lookup
import HorizonCast.Proofs.Merge
import HorizonCast.Proofs.NalFraming
import HorizonCast.Proofs.OfferedStarts
import HorizonCast.Proofs.Offers
import HorizonCast.Proofs.PesLength
import HorizonCast.Proofs.Pipeline
import HorizonCast.Proofs.PipelineSteps
import HorizonCast.Proofs.Player
import HorizonCast.Proofs.Provenance
import HorizonCast.Proofs.Published
import HorizonCast.Proofs.QuietCalls
import HorizonCast.Proofs.Ranges
import HorizonCast.Proofs.Refinement
import HorizonCast.Proofs.RequestFraming
import HorizonCast.Proofs.Resighting
import HorizonCast.Proofs.RoundTrip
import HorizonCast.Proofs.RtspFraming
import HorizonCast.Proofs.RtspMatching
import HorizonCast.Proofs.RtspParse
import HorizonCast.Proofs.Segments
import HorizonCast.Proofs.Selection
import HorizonCast.Proofs.ServedBytes
import HorizonCast.Proofs.Servers
import HorizonCast.Proofs.ServiceChoice
import HorizonCast.Proofs.Session
import HorizonCast.Proofs.SessionProtocol
import HorizonCast.Proofs.SessionStages
import HorizonCast.Proofs.SideBySide
import HorizonCast.Proofs.Sightings
import HorizonCast.Proofs.Soap
import HorizonCast.Proofs.SsdpHeaders
import HorizonCast.Proofs.SsdpSearch
import HorizonCast.Proofs.Staleness
import HorizonCast.Proofs.StopWaits
import HorizonCast.Proofs.StreamTimes
import HorizonCast.Proofs.Teardown
import HorizonCast.Proofs.TimeBase
import HorizonCast.Proofs.WindowSteps
import HorizonCast.Spec.App
import HorizonCast.Spec.Backends
import HorizonCast.Spec.Basic
import HorizonCast.Spec.CaptureLoop
import HorizonCast.Spec.Casting
import HorizonCast.Spec.Cli
import HorizonCast.Spec.Clock
import HorizonCast.Spec.Demux
import HorizonCast.Spec.Device
import HorizonCast.Spec.Discovery
import HorizonCast.Spec.DiscoveryService
import HorizonCast.Spec.Encode
import HorizonCast.Spec.History
import HorizonCast.Spec.LiveClients
import HorizonCast.Spec.LiveMirror
import HorizonCast.Spec.LiveStop
import HorizonCast.Spec.MediaServer
import HorizonCast.Spec.MpegTs
import HorizonCast.Spec.Nv12
import HorizonCast.Spec.Pipeline
import HorizonCast.Spec.Player
import HorizonCast.Spec.Posting
import HorizonCast.Spec.Process
import HorizonCast.Spec.Registry
import HorizonCast.Spec.Rtsp
import HorizonCast.Spec.Session
import HorizonCast.Spec.SessionProtocol
import HorizonCast.Spec.Soap
import HorizonCast.Spec.Ssdp
import HorizonCast.Spec.Upnp
