import MyFreeLib.ByteBuffer
import MyFreeLib.FileServerService
import MyFreeLib.IntBytes
import MyFreeLib.LabelledRun
import MyFreeLib.Channels
import MyFreeLib.ProcessTable
import MyFreeLib.SysvShmTransfer
import MyFreeLib.PosixShmChannel
import MyFreeLib.PtyRelay
import MyFreeLib.PipeDemoSequence
import MyFreeLib.SysvMsgLifetime
import MyFreeLib.SysvMsgAvailability
import MyFreeLib.PipeDemoAllocation
import MyFreeLib.PosixMqSignal
import MyFreeLib.PosixMqThread
import MyFreeLib.UnixSocketLeak
import MyFreeLib.UnixSocketFraming
import MyFreeLib.InetSocketEcho
import MyFreeLib.ColorPrintBounds
import MyFreeLib.CharClassDriverAtomicity
import MyFreeLib.SysvMsgReaper
import MyFreeLib.SysvShmSignals
import MyFreeLib.PtyFork
import MyFreeLib.ColorPrintTip
import MyFreeLib.ColorPrintMessages
import MyFreeLib.FileServerReceive
import MyFreeLib.PipeDemoClient
import MyFreeLib.UnixSocketPeers
import MyFreeLib.UnixSocketThreads
import MyFreeLib.HelloworldClassDriverExposure
import MyFreeLib.HelloworldWithTimer
import MyFreeLib.MmapDemo
import MyFreeLib.InetSocketSelection
import MyFreeLib.FileLock
import MyFreeLib.PosixSemReadings
import MyFreeLib.PosixSemWakeups
import MyFreeLib.PipeDemoService
import MyFreeLib.PosixShmEnd
import MyFreeLib.InetSocketService
import MyFreeLib.SysvShmEnd
import MyFreeLib.PosixMqGetattr
import MyFreeLib.SysvSemBlocking
import MyFreeLib.UnixDatagramOrder
import MyFreeLib.PipeForkOutcome
import MyFreeLib.CharDriver
