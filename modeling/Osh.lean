import Osh.Advanced.Interpreter
import Osh.Advanced.NestedInterrupts
import Osh.Advanced.IdlePeripherals
import Osh.Advanced.LostInterrupts
import Osh.Advanced.PeriodicInterrupts
import Osh.Advanced.Sleep
import Osh.Advanced.Jumps
import Osh.Advanced.PeriodicTimer
import Osh.Advanced.StackPointer
import Osh.Advanced.Stack
import Osh.Advanced.LabelResolution
import Osh.Advanced.Fibonacci
import Osh.Advanced.FastPath
import Osh.Advanced.DmaBlock
import Osh.Advanced.Dispatch
import Osh.Advanced.TimedProgram
import Osh.BasicOS.Isolation
import Osh.Cpp.Encoder
import Osh.Cpp.Builds
import Osh.Cpp.Runs
import Osh.BareBones.Agreement
import Osh.CacheModel.Transparency
import Osh.CacheModel.Eviction
import Osh.SelectServer.Scan
import Osh.SelectServer.FailedAccept
import Osh.ForkServer.Zombies
import Osh.RequestLine.Printed
import Osh.TcpServer.Copy
import Osh.Udp.Datagrams
import Osh.TcpServer.Client
import Osh.UdpAck.LostLines
import Osh.UdpAck.Termination
import Osh.UdpAck.StopAndWait
import Osh.Tasks.WholeProgram
import Osh.Py2Cpp.Nesting
