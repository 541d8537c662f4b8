import Dtu.Framework.Bytes
import Dtu.Framework.Crash
import Dtu.Framework.Crc
import Dtu.Framework.Drain
import Dtu.Framework.Flood
import Dtu.Framework.Lines
import Dtu.Framework.Loop
import Dtu.Framework.Numbers
import Dtu.Framework.Outbox
import Dtu.Framework.Program
import Dtu.Framework.Replies
import Dtu.Framework.Ring
import Dtu.Framework.Runs
import Dtu.Framework.Script
import Dtu.Framework.Stdio
import Dtu.Framework.Watch
import Dtu.Impl.Bd3
import Dtu.Impl.BdLink
import Dtu.Impl.BdTask
import Dtu.Impl.BtComm
import Dtu.Impl.BtSession
import Dtu.Impl.Compact
import Dtu.Impl.DebugQueue
import Dtu.Impl.Delivery
import Dtu.Impl.Device
import Dtu.Impl.Eg800k
import Dtu.Impl.EgCommand
import Dtu.Impl.Ingest
import Dtu.Impl.Kfifo
import Dtu.Impl.LogCursor
import Dtu.Impl.LogFile
import Dtu.Impl.LogLine
import Dtu.Impl.Lora
import Dtu.Impl.LoraCfg
import Dtu.Impl.MainSend
import Dtu.Impl.Mesh
import Dtu.Impl.Pack
import Dtu.Impl.Power
import Dtu.Impl.Radio
import Dtu.Impl.RadioThreads
import Dtu.Impl.Relay
import Dtu.Impl.Routing
import Dtu.Impl.Serial
import Dtu.Impl.Shared
import Dtu.Impl.Submit
import Dtu.Impl.TrimLog
import Dtu.Impl.Wakeup
import Dtu.Proof.Backlog
import Dtu.Proof.Batch
import Dtu.Proof.BdLink
import Dtu.Proof.BdPacing
import Dtu.Proof.BdPacket
import Dtu.Proof.BdReport
import Dtu.Proof.BdStatus
import Dtu.Proof.BdTask
import Dtu.Proof.BtComm
import Dtu.Proof.BtCommand
import Dtu.Proof.BtSession
import Dtu.Proof.Crash
import Dtu.Proof.DebugQueue
import Dtu.Proof.Delivery
import Dtu.Proof.Device
import Dtu.Proof.Drained
import Dtu.Proof.EgCommand
import Dtu.Proof.EgConnect
import Dtu.Proof.EgSend
import Dtu.Proof.Emptied
import Dtu.Proof.Ingest
import Dtu.Proof.Kfifo
import Dtu.Proof.Limits
import Dtu.Proof.LogCursor
import Dtu.Proof.LogFile
import Dtu.Proof.LogLine
import Dtu.Proof.LoraCfg
import Dtu.Proof.LoraCrc
import Dtu.Proof.LoraDecode
import Dtu.Proof.LoraFrame
import Dtu.Proof.LoraSend
import Dtu.Proof.LoraUnpack
import Dtu.Proof.MainSend
import Dtu.Proof.Mesh
import Dtu.Proof.Modules
import Dtu.Proof.Offsets
import Dtu.Proof.Pack
import Dtu.Proof.Payload
import Dtu.Proof.PlainHex
import Dtu.Proof.Progress
import Dtu.Proof.Radio
import Dtu.Proof.RadioAnswers
import Dtu.Proof.RadioListens
import Dtu.Proof.Relay
import Dtu.Proof.Retain
import Dtu.Proof.Routing
import Dtu.Proof.Segments
import Dtu.Proof.SendPath
import Dtu.Proof.Serial
import Dtu.Proof.Shared
import Dtu.Proof.Submit
import Dtu.Proof.TrimLog
import Dtu.Proof.Wakeup
import Dtu.Proof.Window
import Dtu.Spec.Batch
import Dtu.Spec.Delivery
