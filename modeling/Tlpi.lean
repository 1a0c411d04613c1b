import Tlpi.Lib.Transition
import Tlpi.Lib.Window
import Tlpi.Lib.Decimal
import Tlpi.Lib.Lines
import Tlpi.Posix.Base
import Tlpi.Sockets.ReadLine
import Tlpi.Posix.Strtol
import Tlpi.Sockets.SeqnumServer
import Tlpi.Sockets.SeqnumClient
import Tlpi.Lib.LittleEndian
import Tlpi.PipesAndFifo.SeqnumServer
import Tlpi.PipesAndFifo.SeqnumStream
import Tlpi.Posix.Fifo
import Tlpi.PipesAndFifo.SeqnumClient
import Tlpi.PipesAndFifo.SeqnumSystem
import Tlpi.PipesAndFifo.SeqnumCorrespondence
import Tlpi.Posix.Mqueue
import Tlpi.PosixMessageQueues.NotifySignal
import Tlpi.PosixMessageQueues.NotifyThread
import Tlpi.Posix.Fds
import Tlpi.Sockets.InetSockets
import Tlpi.AlternativeIo.EpollInput
import Tlpi.Sockets.Datagram
import Tlpi.Sockets.StreamSockXfr
import Tlpi.Sockets.UnixUcase
import Tlpi.Sockets.UdpClients
import Tlpi.Lib.Fork
import Tlpi.PipesAndFifo.PipeSync
import Tlpi.PipesAndFifo.SimplePipe
import Tlpi.MemoryMappings.AnonyMmap
import Tlpi.PipesAndFifo.ForkSwitch
import Tlpi.UsersAndGroups.UgidFunctions
import Tlpi.Posix.Stdio
import Tlpi.Procexec.WaitStatus
import Tlpi.Procexec.ChildStatus
import Tlpi.PipesAndFifo.PopenGlob
import Tlpi.AlternativeIo.DemoSigio
import Tlpi.Signals.CatchRtsigs
import Tlpi.Sockets.StreamSockXfrClient
import Tlpi.PosixSharedMemory.PshmWrite
import Tlpi.Filesys.TMount
import Tlpi.MemAlloc.FreeAndSbrk
import Tlpi.Lib.Octal
import Tlpi.PosixIpc.CreateObjects
import Tlpi.AlternativeIo.TSelect
import Tlpi.Inotify.InotifyDemo
import Tlpi.PipesAndFifo.PipeLsWc
import Tlpi.PipesAndFifo.PipeLsWcRuns
import Tlpi.Procexec.ForkSigSync
import Tlpi.Daemons.BecomeDaemon
import Tlpi.Signals.SigReceiver
import Tlpi.Lib.Overwrite
import Tlpi.Fileio.SeekIo
import Tlpi.Lib.Crowd
import Tlpi.Lib.Named
import Tlpi.Posix.Sem
import Tlpi.PosixSemaphores.Psem
import Tlpi.Posix.MqueueWait
import Tlpi.PosixMessageQueues.Pmsg
import Tlpi.Procexec.MultiWait
import Tlpi.Terminals.TtyFunctions
import Tlpi.Posix.SharedMemory
import Tlpi.PosixSharedMemory.PshmCommands
import Tlpi.Signals.TSigqueue
import Tlpi.PosixSharedMemory.PshmAlone
import Tlpi.AlternativeIo.PollPipes
