import Sfxge.Lib.Prog
import Sfxge.Lib.Bytes
import Sfxge.Lib.Memory
import Sfxge.Lib.Header
import Sfxge.Lib.Post
import Sfxge.Lib.Pool
import Sfxge.Lib.Extent
import Sfxge.Lib.Run
import Sfxge.Lib.Chain
import Sfxge.Lib.Toeplitz
import Sfxge.Lib.Counter
import Sfxge.Lib.Walk
import Sfxge.Lib.SeqLock
import Sfxge.Lib.Greedy
import Sfxge.Lib.Lanes
import Sfxge.Lib.Stride
import Sfxge.Lib.Crc
import Sfxge.Efx
import Sfxge.Oword
import Sfxge.Lib.ByteOrder
import Sfxge.Lib.Total
import Sfxge.Lib.DescRing
import Sfxge.Fields
import Sfxge.Bootcfg.Block
import Sfxge.Bootcfg.Bootcfg
import Sfxge.Bootcfg.RoundTrip
import Sfxge.Bootcfg.Terminated
import Sfxge.Bootcfg.Erase
import Sfxge.Filter.Siena
import Sfxge.Filter.Restore
import Sfxge.Filter.Table
import Sfxge.Filter.Sets
import Sfxge.Filter.Ef10
import Sfxge.Filter.Ef10Table
import Sfxge.Filter.Ef10Runs
import Sfxge.Filter.Ef10Undo
import Sfxge.Filter.Ef10Install
import Sfxge.Filter.Ef10Reconfigure
import Sfxge.Filter.Ef10Settled
import Sfxge.Filter.Probe
import Sfxge.Filter.Supported
import Sfxge.Lic.V1V2
import Sfxge.Lic.Editing
import Sfxge.Lic.Bounds
import Sfxge.Mcdi.Iface
import Sfxge.Mcdi.Sections
import Sfxge.Mcdi.Encoding
import Sfxge.Mcdi.Matching
import Sfxge.Mcdi.Epoch
import Sfxge.Mcdi.Completion
import Sfxge.Mcdi.Ioctl
import Sfxge.Mcdi.PhyMedia
import Sfxge.Ev.Poll
import Sfxge.Ev.Delivery
import Sfxge.Nic.Restart
import Sfxge.Nic.Requests
import Sfxge.Nic.Unwind
import Sfxge.Nic.AllOrNothing
import Sfxge.Rx.Accounting
import Sfxge.Rx.Ef10
import Sfxge.Rx.Events
import Sfxge.Rx.Loans
import Sfxge.Rx.Queue
import Sfxge.Rx.Refill
import Sfxge.Rx.Usable
import Sfxge.Rx.Runs
import Sfxge.Rx.Toeplitz
import Sfxge.Tx.Ring
import Sfxge.Tx.Counters
import Sfxge.Tx.Accounting
import Sfxge.Tx.Queue
import Sfxge.Tx.Order
import Sfxge.Tx.Wakeup
import Sfxge.Tx.Loop
import Sfxge.Tx.Service
import Sfxge.Tlv.Cursor
import Sfxge.Tlv.Buffer
import Sfxge.Tlv.Walk
import Sfxge.Tlv.Edit
import Sfxge.Tlv.Chain
import Sfxge.Tlv.Find
import Sfxge.Tlv.Length
import Sfxge.Tlv.Segment
import Sfxge.Tlv.BufWrite
import Sfxge.Tlv.Update
import Sfxge.Tlv.Upsert
import Sfxge.Tlv.Check
import Sfxge.Tlv.Partition
import Sfxge.Tlv.Create
import Sfxge.Tlv.Bounds
import Sfxge.Tlv.Validate
import Sfxge.Tlv.Licence
import Sfxge.Vpd.Tags
import Sfxge.Vpd.Hunk
import Sfxge.Vpd.Items
import Sfxge.Vpd.Enumerate
import Sfxge.Vpd.Layout
import Sfxge.Vpd.Edit
import Sfxge.Vpd.Store
import Sfxge.Vpd.Overlay
import Sfxge.Nvram.Dcfg
import Sfxge.Nvram.Rewrite
import Sfxge.Nvram.Commands
import Sfxge.Nvram.Segments
import Sfxge.Nvram.Overrun
import Sfxge.Nvram.Atomic
import Sfxge.Nvram.Examined
import Sfxge.Nvram.Version
import Sfxge.Nvram.Update
import Sfxge.Mac.Mac
import Sfxge.Mac.Mode
import Sfxge.Mac.Port
import Sfxge.Mac.Siena
import Sfxge.Mac.PhyCap
import Sfxge.Mac.Stats
import Sfxge.Mac.Snapshot
import Sfxge.Mac.Families
import Sfxge.Mon.Sensors
import Sfxge.Mon.Decode
import Sfxge.Tx.Fragment
import Sfxge.Tx.Segment
import Sfxge.Tx.Undo
import Sfxge.Tx.Abort
import Sfxge.Tx.Pieces
import Sfxge.Tx.Blocks
import Sfxge.Tx.Bind
import Sfxge.Tx.Packet
import Sfxge.Tx.Payload
import Sfxge.Tx.Lso
import Sfxge.Tx.Flush
import Sfxge.Tx.FlushRuns
import Sfxge.Tx.Discard
import Sfxge.Tx.Holdings
import Sfxge.Tx.Ownership
import Sfxge.Tcp.Pkthdr
import Sfxge.Tcp.Bounds
import Sfxge.Tcp.Pointers
import Sfxge.Ev.Sizing
import Sfxge.Ev.Overflow
import Sfxge.Rx.Timer
import Sfxge.Rx.Scale
import Sfxge.Rx.Contention
import Sfxge.Rx.Trim
import Sfxge.Rx.Coalesce
import Sfxge.Rx.CoalesceRuns
import Sfxge.Hash.Crc32
import Sfxge.Hash.Multicast
import Sfxge.Hash.Words
import Sfxge.Mac.Setters
import Sfxge.Mac.LinkCap
import Sfxge.Intr.Init
import Sfxge.Intr.Undo
import Sfxge.Intr.Queues
import Sfxge.Intr.SelfTest
import Sfxge.Tx.PioRuns
import Sfxge.Sram.Batches
import Sfxge.Dma.Format
import Sfxge.Dma.Rings
import Sfxge.Dma.Transfers
import Sfxge.Tx.Label
import Sfxge.Ev.Software
