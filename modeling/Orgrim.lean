import Orgrim.Bitset.BinString
import Orgrim.CJson.Duplicate
import Orgrim.CJson.Item
import Orgrim.CJson.Parse
import Orgrim.CJson.Parser
import Orgrim.CJson.Print
import Orgrim.CJson.Printer
import Orgrim.CJson.Reading
import Orgrim.CJson.Render
import Orgrim.CJson.RoundTrip
import Orgrim.CJson.SameText
import Orgrim.CJson.Strings
import Orgrim.CalcPathMiss.Interpolation
import Orgrim.ChineseCalendar.Calls
import Orgrim.CircleBuffer.Count
import Orgrim.CircleBuffer.Deadlock
import Orgrim.CircleBuffer.LateSub
import Orgrim.Csv.Standard
import Orgrim.Ctpl.Functions
import Orgrim.Ctpl.Pool
import Orgrim.Ctpl.Steps
import Orgrim.Ctpl.Stop
import Orgrim.Ctpl.WakeUps
import Orgrim.DebugUtil.Allocation
import Orgrim.DebugUtil.FrameLines
import Orgrim.DebugUtil.HexCodec
import Orgrim.DrawMap.Loader
import Orgrim.EpollServer.Strands
import Orgrim.Frlist.Backward
import Orgrim.Frlist.Forward
import Orgrim.Frlist.InsertionSort
import Orgrim.Frlist.ShowAll
import Orgrim.Frlist.Truncate
import Orgrim.HexString.Convert
import Orgrim.HexString.Overrun
import Orgrim.Locker.Deadline
import Orgrim.LstTimer.Order
import Orgrim.McuComm.LostFrames
import Orgrim.MemoryPool.Capacity
import Orgrim.NetServer.Delivery
import Orgrim.NonactiveConn.Refinement
import Orgrim.Ping.Cksum
import Orgrim.SerialPort.Barrier
import Orgrim.SerialPort.Corruption
import Orgrim.SerialPort.Delivery
import Orgrim.SerialPort.ErrorBuffer
import Orgrim.SerialPort.Recovery
import Orgrim.SerialServer.Bound
import Orgrim.SerialServer.Segments
import Orgrim.TaskPool.Order
import Orgrim.TaskPool.Pool
import Orgrim.TaskPool.WakeUps
import Orgrim.Theory.Cells
import Orgrim.Theory.Checked
import Orgrim.Theory.Dealing
import Orgrim.Threadpool.WakeUps
import Orgrim.TimingHeap.Bounds
import Orgrim.TimingWheel.Runs
import Orgrim.Uart.Answers
import Orgrim.Uart.BaudTest
import Orgrim.Uart.CrcTable
import Orgrim.Uart.ImuTest
import Orgrim.Uart.MapReceiver
import Orgrim.Uart.MapTransfer
import Orgrim.Uart.SerialTest
import Orgrim.Uart.SerialTest2
import Orgrim.Uart.UpgradeTest
import Orgrim.Workqueue.Bound
import Orgrim.Workqueue.LastWakeUp
