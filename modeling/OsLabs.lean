import OsLabs.Library.Machine
import OsLabs.Library.Slots
import OsLabs.Library.CString
import OsLabs.Chat.Commands
import OsLabs.Tcp.Server
import OsLabs.Tcp.Registry
import OsLabs.Tcp.Table
import OsLabs.Tcp.Ownership
import OsLabs.Tcp.Privacy
import OsLabs.Udp.Server
import OsLabs.Udp.Table
import OsLabs.Udp.Uniqueness
import OsLabs.Udp.Handling
import OsLabs.Library.Stream
import OsLabs.Tcp.Client
import OsLabs.Tcp.Framing
import OsLabs.Tcp.Service
import OsLabs.Tcp.Texts
import OsLabs.Library.CondVar
import OsLabs.Hospital.Simulation
import OsLabs.Hospital.Treatment
import OsLabs.Hospital.Progress
import OsLabs.Hospital.Rounds
import OsLabs.Hospital.Bookkeeping
import OsLabs.Library.Semaphore
import OsLabs.Print.Queue
import OsLabs.Print.Fifo
import OsLabs.Print.Restart
import OsLabs.Sysv.Server
import OsLabs.Sysv.Order
import OsLabs.Sysv.Lines
import OsLabs.Sysv.Queues
import OsLabs.Sysv.Sharing
import OsLabs.Udp.Addressing
import OsLabs.Udp.Isolation
import OsLabs.Udp.KeepAlive
import OsLabs.Udp.Confirmation
import OsLabs.Udp.Client
import OsLabs.Udp.Leaving
import OsLabs.Udp.Listening
import OsLabs.Udp.Broadcast
import OsLabs.Library.Strcat
import OsLabs.Chat.Listing
import OsLabs.Library.Reversal
import OsLabs.Flipper.Lines
import OsLabs.Signals.Catcher
import OsLabs.Signals.Handshake
import OsLabs.Signals.Answers
import OsLabs.Tcp.Handling
import OsLabs.Chat.Protocol
import OsLabs.Udp.Identity
import OsLabs.Udp.Texts
import OsLabs.Udp.Network
import OsLabs.Udp.Driving
import OsLabs.Udp.Traffic
import OsLabs.Library.Loop
import OsLabs.Library.Tiling
import OsLabs.Integration.Threads
import OsLabs.Integration.Processes
import OsLabs.Integration.Pipes
import OsLabs.Mqueue.Handover
import OsLabs.Flipper.Directory
import OsLabs.Sysv.Pieces
import OsLabs.Mutex.Threads
import OsLabs.Mutex.Reaping
import OsLabs.Flipper.Buffer
import OsLabs.Collatz.Convergence
import OsLabs.Collatz.Overflow
import OsLabs.Semafor.Log
import OsLabs.Semafor.Agreement
import OsLabs.Library.Completion
import OsLabs.Semafor.Completion
import OsLabs.Semafor.Posix
import OsLabs.Hospital.Termination
import OsLabs.Print.Printing
import OsLabs.Udp.Authorship
import OsLabs.Udp.Agreement
import OsLabs.Library.ForkJoin
import OsLabs.Mutex.Words
import OsLabs.Integration.Joining
import OsLabs.Socket.Service
import OsLabs.Library.NamedPipe
import OsLabs.Integration.Fifos
import OsLabs.Watki.Cancellation
import OsLabs.Library.Relay
import OsLabs.Sysv.Delivery
import OsLabs.Tcp.Authorship
