import UsbSniffer.Lib.Incremental
import UsbSniffer.Uhsif
import UsbSniffer.Stream.Model
import UsbSniffer.Stream.Machine
import UsbSniffer.Stream.Refine
import UsbSniffer.Stream.Delivery
import UsbSniffer.Packet.Message
import UsbSniffer.Packet.Model
import UsbSniffer.Packet.Records
import UsbSniffer.Packet.Timestamps
import UsbSniffer.Packet.Steps
import UsbSniffer.Packet.Written
import UsbSniffer.Packet.Heartbeat
import UsbSniffer.Packet.Account
import UsbSniffer.Packet.Folding
import UsbSniffer.Packet.Assembly
import UsbSniffer.Packet.Frames
import UsbSniffer.Packet.FoldBlind
import UsbSniffer.Packet.Alignment
import UsbSniffer.Packet.Provenance
import UsbSniffer.Gen2
import UsbSniffer.Lib.Queue
import UsbSniffer.Rawq
import UsbSniffer.Pcapng.Block
import UsbSniffer.Pcapng.Writer
import UsbSniffer.Pcapng.Ownership
import UsbSniffer.Pcapng.Session
import UsbSniffer.Pcapng.Termination
import UsbSniffer.Pcapng.Delivery
import UsbSniffer.Packet.Limit
import UsbSniffer.Packet.Boundary
import UsbSniffer.Packet.FoldBatch
import UsbSniffer.Lib.Bytes
import UsbSniffer.Lib.Crc
import UsbSniffer.Lib.Tap
import UsbSniffer.HeaderCrc
import UsbSniffer.Pcapng.Prefix
import UsbSniffer.Pcapng.Reader
import UsbSniffer.Command
import UsbSniffer.Gen1.Capture
import UsbSniffer.Gen1.Port
import UsbSniffer.Gen1.Sessions
import UsbSniffer.Gen1.Jed
import UsbSniffer.Gen1.Jtag
import UsbSniffer.Tools.FakeStream
import UsbSniffer.Tools.UsbcapFast
import UsbSniffer.Tools.Stats
import UsbSniffer.Extcap
import UsbSniffer.Transport.Libusb
import UsbSniffer.Tools.Replay
import UsbSniffer.Packet.Flags
import UsbSniffer.Packet.Elapsed
import UsbSniffer.Packet.Ungated
import UsbSniffer.Stream.Staging
import UsbSniffer.Transport.Ownership
import UsbSniffer.Packet.Bounds
import UsbSniffer.LiveSession
import UsbSniffer.Tools.CheckPcapng
import UsbSniffer.Transport.OutPool
import UsbSniffer.Transport.Teardown
import UsbSniffer.Lib.Dialogue
import UsbSniffer.Lib.XorMap
import UsbSniffer.Gen1.Fx2lp
import UsbSniffer.Gen1.Flash
import UsbSniffer.Gen1.Bounds
import UsbSniffer.Gen1.Usb
import UsbSniffer.Gen1.SpeedTest
import UsbSniffer.Control
import UsbSniffer.Tools.UhsifBulk
import UsbSniffer.Frontend
import UsbSniffer.Devices
import UsbSniffer.Transport.Session
