import DeviceHttp.Body.Fixed
import DeviceHttp.Body.Sink
import DeviceHttp.Body.Source
import DeviceHttp.Body.Stream
import DeviceHttp.Body.StreamSink
import DeviceHttp.Body.TextSink
import DeviceHttp.Firmware.Agent
import DeviceHttp.Firmware.Checksum
import DeviceHttp.Firmware.LocalFile
import DeviceHttp.Firmware.Manifest
import DeviceHttp.Flash.Device
import DeviceHttp.Flash.RegionSink
import DeviceHttp.Form.Body
import DeviceHttp.Form.Encoding
import DeviceHttp.Form.Sink
import DeviceHttp.Json.Error
import DeviceHttp.Json.Reader
import DeviceHttp.Json.Record
import DeviceHttp.Json.Sink
import DeviceHttp.Json.Value
import DeviceHttp.Storage.Directory
import DeviceHttp.Storage.FileSink
import DeviceHttp.Storage.FileStore
import DeviceHttp.Storage.FileSystem
import DeviceHttp.Storage.MemoryStore
import DeviceHttp.Storage.Monitored
import DeviceHttp.Text.Characters
import DeviceHttp.Text.Cut
import DeviceHttp.Text.Decimal
import DeviceHttp.Text.Hex
import DeviceHttp.Text.Quoted
import DeviceHttp.Text.Utf8
import DeviceHttp.Transfer.Client
import DeviceHttp.Transfer.Credentials
import DeviceHttp.Transfer.Error
import DeviceHttp.Transfer.Event
import DeviceHttp.Transfer.Exchange
import DeviceHttp.Transfer.HeaderBlock
import DeviceHttp.Transfer.Line
import DeviceHttp.Transfer.Peer
import DeviceHttp.Transfer.Request
import DeviceHttp.Transfer.Response
import DeviceHttp.Transfer.Url
import DeviceHttp.Transfer.Window
import DeviceHttp.Proofs.Transfer.Feed
import DeviceHttp.Proofs.Transfer.Reading
import DeviceHttp.Proofs.Transfer.Fragmentation
import DeviceHttp.Proofs.Transfer.Lines
import DeviceHttp.Proofs.Transfer.ChunkGrammar
import DeviceHttp.Proofs.Transfer.ChunkDecoding
import DeviceHttp.Proofs.Transfer.Demand
import DeviceHttp.Proofs.Transfer.Reply
import DeviceHttp.Proofs.Transfer.Completion
import DeviceHttp.Proofs.Transfer.Replay
import DeviceHttp.Proofs.Transfer.Heads
import DeviceHttp.Proofs.Transfer.Handover
import DeviceHttp.Proofs.Transfer.Responses
import DeviceHttp.Proofs.Transfer.Attended
import DeviceHttp.Proofs.Transfer.Trails
import DeviceHttp.Proofs.Transfer.SinkProtocol
import DeviceHttp.Proofs.Transfer.Rounds
import DeviceHttp.Proofs.Transfer.Connections
import DeviceHttp.Proofs.Transfer.History
import DeviceHttp.Proofs.Transfer.Controller
import DeviceHttp.Proofs.Transfer.Redirects
import DeviceHttp.Proofs.Transfer.Sources
import DeviceHttp.Proofs.Transfer.Independence
import DeviceHttp.Proofs.Transfer.Views
import DeviceHttp.Proofs.Transfer.Pieces
import DeviceHttp.Proofs.Transfer.RequestText
import DeviceHttp.Proofs.Transfer.RedirectedRequests
import DeviceHttp.Proofs.Transfer.Streaming
import DeviceHttp.Proofs.Transfer.Waits
import DeviceHttp.Proofs.Machine.Words
import DeviceHttp.Proofs.Machine.Buffering
import DeviceHttp.Proofs.Machine.Spooling
import DeviceHttp.Proofs.Machine.Supplies
import DeviceHttp.Proofs.Machine.Replies
import DeviceHttp.Proofs.Machine.Transactions
import DeviceHttp.Proofs.Storage.FileMap
import DeviceHttp.Proofs.Storage.Table
import DeviceHttp.Proofs.Storage.FileBodies
import DeviceHttp.Proofs.Firmware.Names
import DeviceHttp.Proofs.Firmware.Verification
import DeviceHttp.Proofs.Firmware.ManifestLines
import DeviceHttp.Proofs.Firmware.Steps
import DeviceHttp.Proofs.Firmware.Courses
import DeviceHttp.Proofs.Firmware.Installation
import DeviceHttp.Proofs.Firmware.Failures
import DeviceHttp.Proofs.Firmware.Recognition
import DeviceHttp.Proofs.Firmware.ManifestBodies
import DeviceHttp.Proofs.Storage.BoundedMap
import DeviceHttp.Proofs.Storage.Downloads
import DeviceHttp.Proofs.Flash.RegionBodies
import DeviceHttp.Proofs.Machine.Regions
import DeviceHttp.Proofs.Form.Entries
import DeviceHttp.Proofs.Form.Bodies
import DeviceHttp.Proofs.Form.Decoding
import DeviceHttp.Proofs.Form.RoundTrip
import DeviceHttp.Proofs.Storage.Interchange
import DeviceHttp.Proofs.Transfer.UrlGrammar
import DeviceHttp.Proofs.Firmware.Cleanup
import DeviceHttp.Proofs.Transfer.HeaderBlocks
import DeviceHttp.Proofs.Transfer.Tokens
import DeviceHttp.Proofs.Transfer.Settings
import DeviceHttp.Proofs.Machine.Cursors
import DeviceHttp.Proofs.Machine.Payloads
import DeviceHttp.Proofs.Machine.Texts
import DeviceHttp.Proofs.Firmware.ManifestGrammar
import DeviceHttp.Proofs.Transfer.StatusLines
import DeviceHttp.Proofs.Json.Written
import DeviceHttp.Proofs.Json.RoundTrip
import DeviceHttp.Proofs.Machine.Queue
import DeviceHttp.Proofs.Firmware.Checksums
import DeviceHttp.Proofs.Machine.Sizes
import DeviceHttp.Proofs.Machine.Images
import DeviceHttp.Proofs.Machine.Names
import DeviceHttp.Proofs.Text.Descriptions
