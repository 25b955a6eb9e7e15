import PandoraRobot.Lib.RingList
import PandoraRobot.Lib.CircularClock
import PandoraRobot.Lib.Chain
import PandoraRobot.Lib.RingBuffer
import PandoraRobot.Lib.Trace
import PandoraRobot.Lib.Tiling
import PandoraRobot.Lib.BlockRing
import PandoraRobot.Lib.Alignment
import PandoraRobot.Lib.DownCounter
import PandoraRobot.Lib.Holding
import PandoraRobot.Lib.UrgentQueue
import PandoraRobot.Lib.PriorityLock
import PandoraRobot.Lib.BoundedWriter
import PandoraRobot.Lib.Decimal
import PandoraRobot.Lib.RecursiveLock
import PandoraRobot.Lib.RoundRobin
import PandoraRobot.Lib.RankedList
import PandoraRobot.Lib.LineEditor
import PandoraRobot.Kernel.Service
import PandoraRobot.Kernel.Timer
import PandoraRobot.Kernel.TimerSorted
import PandoraRobot.Kernel.TimerRuns
import PandoraRobot.Kernel.TimerOrder
import PandoraRobot.Kernel.TimerFlags
import PandoraRobot.Kernel.Thread
import PandoraRobot.Kernel.ReadyTable
import PandoraRobot.Kernel.ThreadOps
import PandoraRobot.Kernel.ThreadLife
import PandoraRobot.Kernel.WaitList
import PandoraRobot.Kernel.Bystander
import PandoraRobot.Kernel.Clock
import PandoraRobot.Kernel.KernelOp
import PandoraRobot.Kernel.ThreadRuns
import PandoraRobot.Kernel.TimeSlice
import PandoraRobot.Kernel.RoundRobin
import PandoraRobot.Kernel.Resume
import PandoraRobot.Kernel.Sleep
import PandoraRobot.Kernel.Blocking
import PandoraRobot.Kernel.Priority
import PandoraRobot.Kernel.WaitOrder
import PandoraRobot.Kernel.Ended
import PandoraRobot.Kernel.Deletion
import PandoraRobot.Kernel.DeletionRuns
import PandoraRobot.Kernel.Device
import PandoraRobot.Kernel.Vsnprintf
import PandoraRobot.Kernel.Kprintf
import PandoraRobot.Kernel.Objects
import PandoraRobot.Kernel.DeviceLife
import PandoraRobot.Ipc.Semaphore
import PandoraRobot.Ipc.Mutex
import PandoraRobot.Ipc.MutexRuns
import PandoraRobot.Ipc.MutexPriority
import PandoraRobot.Ipc.MutexLock
import PandoraRobot.Ipc.PriorityWait
import PandoraRobot.Ipc.Mailbox
import PandoraRobot.Ipc.MailboxRuns
import PandoraRobot.Ipc.Event
import PandoraRobot.Ipc.EventRuns
import PandoraRobot.Ipc.MessageQueue
import PandoraRobot.Ipc.MessageQueueRuns
import PandoraRobot.Memory.MemPool
import PandoraRobot.Memory.MemPoolRuns
import PandoraRobot.Memory.MemPoolInit
import PandoraRobot.Memory.Heap
import PandoraRobot.Memory.HeapBlocks
import PandoraRobot.Memory.HeapOps
import PandoraRobot.Memory.HeapRuns
import PandoraRobot.Memory.HeapSizes
import PandoraRobot.Drivers.Spi
import PandoraRobot.Drivers.Sensor
import PandoraRobot.Application.MobileCmd
import PandoraRobot.Application.MobileArgs
import PandoraRobot.Drivers.Ringbuffer
import PandoraRobot.Drivers.RingbufferForce
import PandoraRobot.Drivers.SerialRx
import PandoraRobot.Drivers.DataQueue
import PandoraRobot.Drivers.SerialTx
import PandoraRobot.Drivers.HalTick
import PandoraRobot.Drivers.Gpio
import PandoraRobot.Drivers.Pwm
import PandoraRobot.Drivers.UsDelay
import PandoraRobot.Drivers.PipeWorkqueue
import PandoraRobot.Drivers.Pipe
import PandoraRobot.Drivers.UsartRx
import PandoraRobot.Drivers.Workqueue
import PandoraRobot.Drivers.WorkqueueRuns
import PandoraRobot.Lib.SoloRun
import PandoraRobot.Drivers.DelayedWork
import PandoraRobot.Drivers.DelayedWorkRuns
import PandoraRobot.Drivers.Completion
import PandoraRobot.Drivers.WaitQueue
import PandoraRobot.Drivers.SerialOpen
import PandoraRobot.Drivers.SerialConsole
import PandoraRobot.Drivers.RingBlkBuf
import PandoraRobot.Drivers.RingBlkBufRuns
import PandoraRobot.Drivers.RingBlkQueue
import PandoraRobot.Finsh.Shell
import PandoraRobot.Finsh.ShellRuns
import PandoraRobot.Finsh.Getchar
import PandoraRobot.Lib.RecentLines
import PandoraRobot.Finsh.History
import PandoraRobot.Lib.CommonPrefix
import PandoraRobot.Finsh.Symbols
import PandoraRobot.Finsh.AutoComplete
import PandoraRobot.Lib.Tokens
import PandoraRobot.Finsh.Split
import PandoraRobot.Lib.LinkedRing
import PandoraRobot.Memory.Memheap
import PandoraRobot.Memory.MemheapItems
import PandoraRobot.Memory.MemheapOps
import PandoraRobot.Memory.MemheapRealloc
import PandoraRobot.Memory.MemheapRuns
import PandoraRobot.Memory.HeapSearch
import PandoraRobot.Memory.HeapEnds
import PandoraRobot.Lib.Numeral
import PandoraRobot.Kernel.PrintNumber
import PandoraRobot.Drivers.PipeTransfer
import PandoraRobot.Drivers.SensorRead
import PandoraRobot.Lib.Chunks
import PandoraRobot.Drivers.SpiXfer
import PandoraRobot.Drivers.SpiSelect
import PandoraRobot.Drivers.Status
import PandoraRobot.Drivers.Flash
import PandoraRobot.Lib.MemoryBlocks
import PandoraRobot.Drivers.FlashWrite
import PandoraRobot.Kernel.Memmove
import PandoraRobot.Lib.TwoWire
import PandoraRobot.Lib.Transcript
import PandoraRobot.Drivers.I2cBitOps
import PandoraRobot.Drivers.I2cTransfer
import PandoraRobot.Drivers.I2cWaveform
import PandoraRobot.Memory.RawHeap
import PandoraRobot.Memory.HeapRealloc
import PandoraRobot.Lib.Bytecode
import PandoraRobot.Finsh.Vm
import PandoraRobot.Finsh.Compiler
import PandoraRobot.Finsh.Expr
import PandoraRobot.Finsh.CompilerRuns
