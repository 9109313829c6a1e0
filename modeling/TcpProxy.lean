import TcpProxy.Lib.Runs
import TcpProxy.Lib.Traces
import TcpProxy.Lib.Heap
import TcpProxy.Lib.Multimap
import TcpProxy.Lib.Word32
import TcpProxy.Lib.Libevent
import TcpProxy.Lib.IStream
import TcpProxy.Lib.Fields
import TcpProxy.Lib.Getopt
import TcpProxy.Model.Config
import TcpProxy.Model.CommandLine
import TcpProxy.Model.World
import TcpProxy.Model.Manager
import TcpProxy.Model.Proxy
import TcpProxy.Lib.Jsoncpp
import TcpProxy.Model.Control
import TcpProxy.Model.Loop
import TcpProxy.Model.Process
import TcpProxy.Spec.Session
import TcpProxy.Spec.Board
import TcpProxy.Spec.Table
import TcpProxy.Proof.Tables
import TcpProxy.Proof.Address
import TcpProxy.Proof.CommandLine
import TcpProxy.Proof.Close
import TcpProxy.Proof.Callbacks
import TcpProxy.Proof.Shows
import TcpProxy.Proof.Traffic
import TcpProxy.Proof.Refine
import TcpProxy.Spec.Commands
import TcpProxy.Proof.Commands
import TcpProxy.Spec.Change
import TcpProxy.Proof.Events
import TcpProxy.Proof.Lifecycle
import TcpProxy.Spec.Index
import TcpProxy.Proof.Frame
import TcpProxy.Proof.Alone
import TcpProxy.Proof.Accounts
import TcpProxy.Proof.Teardown
import TcpProxy.Spec.Log
import TcpProxy.Proof.Index
import TcpProxy.Proof.Service
import TcpProxy.Proof.Messages
import TcpProxy.Proof.Streams
import TcpProxy.Proof.Drain
import TcpProxy.Spec.Route
import TcpProxy.Proof.Routing
import TcpProxy.Proof.Ids
import TcpProxy.Spec.Growth
import TcpProxy.Spec.Alone
import TcpProxy.Proof.Delivery
import TcpProxy.Proof.Stranded
import TcpProxy.Proof.Liveness
import TcpProxy.Proof.Process
import TcpProxy.Proof.Outbound
