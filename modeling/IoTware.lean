import IoTware.LwMsg.Cursor
import IoTware.LwMsg.RoundTrip
import IoTware.LwMsg.Tx
import IoTware.Micro.LinkTree
import IoTware.Micro.Lifecycle
import IoTware.Micro.Running
import IoTware.Micro.Routing
import IoTware.LwMsg.Message
import IoTware.Micro.Report
import IoTware.Dist.Handlers
import IoTware.Micro.Queues
import IoTware.Dist.Services
import IoTware.Dist.NullSafety
import IoTware.Dist.Answers
import IoTware.LwMsg.ArrayOrder
import IoTware.Dist.Honest
import IoTware.Dist.Failures
import IoTware.Micro.Structure
import IoTware.Micro.Selection
import IoTware.Micro.EventTask
import IoTware.Collabo.Bounds
import IoTware.Collabo.Leftovers
import IoTware.Collabo.Defaults
import IoTware.Dist.Codes
import IoTware.Dist.System
import IoTware.Dist.Gate
import IoTware.Dist.Conservation
import IoTware.LwMsg.Proper
import IoTware.LwMsg.Truncation
import IoTware.LwMsg.Grammar
import IoTware.LwMsg.Sound
import IoTware.Dist.RunFailure
import IoTware.Dist.ParamOrder
import IoTware.LwMsg.Numbers
import IoTware.LwMsg.Dictionary
import IoTware.LwMsg.Frames
import IoTware.LwMsg.Buffers
import IoTware.Micro.Agreement
import IoTware.Micro.LiveHandles
import IoTware.Micro.Lookup
import IoTware.Micro.OffOn
import IoTware.Micro.Repetition
import IoTware.Micro.RunTask
import IoTware.Oal.Fifo
import IoTware.Oal.LinkedList
import IoTware.Lib.Codec
import IoTware.Lib.Ledger
import IoTware.Lib.Reads
import IoTware.Micro.Handles
import IoTware.Lib.Digits
import IoTware.Oal.Debug
import IoTware.Oal.Format
import IoTware.Oal.Credentials
import IoTware.Oal.Network
import IoTware.Oal.NumberFields
import IoTware.Oal.FieldValues
import IoTware.Oal.Connections
import IoTware.Rofw.Service
import IoTware.Micro.Ports
import IoTware.Dist.NameCopies
import IoTware.Oal.FifoTasks
import IoTware.Micro.KernelTasks
import IoTware.Lib.Outputs
import IoTware.Dist.AnswerOrder
import IoTware.Dist.Refinement
import IoTware.LwMsg.Nested
import IoTware.Lib.Blocks
import IoTware.LwMsg.LostBlocks
import IoTware.Collabo.MessageStream
import IoTware.Dist.Delivery
import IoTware.Dist.Registration
import IoTware.LwMsg.Retransmission
import IoTware.Oal.Registry
