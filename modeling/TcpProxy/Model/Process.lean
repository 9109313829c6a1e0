import TcpProxy.Model.Address
import TcpProxy.Model.Loop

/-!
# The process (`main.cpp`, `server.cpp`, `controlchannel.cpp`)

`main` from its arguments to the end of the process: the set-up, in the order in which it can fail;
the event loop, with the callbacks of the control channel, of the listener and of the signals
beside those of the sockets; and what follows the loop. `Process` is what the callbacks change.
A signal is taken between two callbacks, and `event_base_dispatch` returns only when it is told to;
a channel error only closes the connection to the broker, from which deliveries may still arrive.
Logging and the connection itself are left out, and so are the listener and the connection's
watchers, which their destructors free when the event base is gone.
-/

namespace TcpProxy

open Getopt Libevent

/-- What `main` finds when it starts. -/
structure Surroundings where
  /-- `event_base_new` succeeds -/
  base : Bool
  /-- the text of a file, `none` if it cannot be opened -/
  file : List Char → Option (List Char)
  /-- what `Config::read`'s variable `port` holds while it is uninitialised -/
  unset : Nat → UInt16
  /-- a listener can be bound to the port -/
  bind : UInt16 → Bool
  /-- what `bufferevent_socket_connect_hostname` returns -/
  connectRc : BevPtr → Int
  /-- `run` when `main` tests it: no signal has been caught by then; one that is caught between the
  test and the loop is lost, since `event_base_loop` resets what `event_base_loopbreak` sets -/
  run : Bool

/-- How the process ends. -/
inductive Exit
  /-- `main` comes to `return code` -/
  | status (code : Int)
  /-- `toPriority` reads outside its array -/
  | outOfBounds
  /-- `AMQP::Address` throws, and nobody catches -/
  | badAddress
  | crash (c : Crash)

/-- The value, or the end of the process. -/
def orExit {α : Type} (e : Exit) : Option α → Except Exit α
  | some a => .ok a
  | none => .error e

/-- `std::ifstream`. -/
def Surroundings.ifstream (S : Surroundings) (name : List Char) : IStream :=
  match S.file name with
  | some text => .ofString text
  | none => ⟨[], true, false⟩

/-- What `main` has set up when it comes to the loop. -/
structure Setup where
  cfg : Config.Settings
  priority : Priority
  hosts : Config.Hosts
  address : AMQP.Address

/-- `main` up to the loop. -/
def setUp (S : Surroundings) (argv : List Arg) : Except Exit Setup :=
  if !S.base then .error (.status (-1))
  else do
    let cfg ← orExit (.status (-1)) (Config.parseCmdLine argv)
    let priority ← orExit .outOfBounds (toPriority cfg.verbosity)
    let hosts ← orExit (.status (-3)) (Config.read S.unset (S.ifstream cfg.cfgFile))
    -- `Server::init`
    if !S.bind cfg.port then .error (.status (-4))
    else
      let address ← orExit .badAddress (AMQP.Address.ofText cfg.rmqStr)
      .ok ⟨cfg, priority, hosts, address⟩

/-- Where the process is. -/
inductive Phase
  | looping
  /-- `event_base_loopbreak` was called -/
  | broken
  | crashed (c : Crash)

structure Process where
  world : World
  phase : Phase
  /-- `consume` was called for the queue -/
  consuming : Bool
  /-- the deliveries acknowledged, by their tags -/
  acked : List UInt64
  /-- `close` was called on the connection to the broker -/
  closing : Bool

/-- When `main` has tested `run`; a signal caught before skips the loop. -/
def Process.start (run : Bool) : Process where
  world := .init
  phase := if run then .looping else .broken
  consuming := false
  acked := []
  closing := false

/-- A turn of the loop. -/
inductive Turn
  /-- a callback of a socket, or an accepted client -/
  | socket (e : Event)
  /-- the queue is declared -/
  | declared
  /-- a message is delivered -/
  | received (tag : UInt64) (body : List UInt8)
  | channelError
  | listenerError
  /-- SIGINT, SIGQUIT, SIGABRT or SIGTERM -/
  | signal

/-- An event that libevent reports itself. -/
def Event.ofSocket : Event → Bool
  | .control _ => false
  | _ => true

namespace Process

variable (E : Env) (J : Jsoncpp.Impl) (cmsg : UInt64 → ControlMessage)

def offers (s : Process) : Turn → Bool
  | .socket e => e.ofSocket && TcpProxy.offers s.world e
  | .received _ _ => s.consuming
  | .declared | .channelError | .listenerError | .signal => true

/-- After a callback that changes the proxy. -/
def after (s : Process) : Except Crash World → Process
  | .ok w => { s with world := w }
  | .error c => { s with phase := .crashed c }

/-- What a turn does; `cmsg` is the uninitialised message that `onReceived` declares. -/
def turn (s : Process) : Turn → Process
  | .socket e => s.after ((handle E s.world e).mapError .fault)
  | .declared => { s with consuming := true }
  | .received tag body =>
    -- acknowledged before it is looked at
    let s := { s with acked := s.acked ++ [tag] }
    s.after (ControlChannel.onReceived J (cmsg tag) body s.world)
  | .channelError => { s with closing := true }
  | .listenerError => { s with phase := .broken }
  | .signal => { s with phase := .broken }

/-- One turn, `none` where the loop has ended or the turn is not offered. -/
def next (s : Process) (t : Turn) : Option Process :=
  match s.phase with
  | .looping => if s.offers t then some (s.turn E J cmsg t) else none
  | _ => none

/-- The turns `ts` lead from `s` to `s'`. -/
abbrev Run : Process → List Turn → Process → Prop := Runs.Run (next E J cmsg)

end Process

/-- `main` after the loop, up to `event_base_free`. -/
def closeAll (w : World) : Except Fault World := Controller.onControlMessage ⟨.CLOSE_ALL, 0⟩ w

/-- `main` after the loop, and `~ProxyManager` on its return. -/
def shutDown (w : World) : Except Fault World := do
  let w ← closeAll w
  ProxyManager.dropAll w

/-- How the process ends, `none` while it loops. -/
def Process.exit (s : Process) : Option Exit :=
  match s.phase with
  | .looping => none
  | .crashed c => some (.crash c)
  | .broken =>
    match shutDown s.world with
    | .ok _ => some (.status 0)
    | .error f => some (.crash (.fault f))

/-- `main`, with the turns that the loop takes: how the process ends, `none` if it has not ended
after them or does not offer them. -/
def main (S : Surroundings) (J : Jsoncpp.Impl) (cmsg : UInt64 → ControlMessage) (argv : List Arg)
    (ts : List Turn) : Option Exit :=
  match setUp S argv with
  | .error e => some e
  | .ok setup =>
    (Runs.exec (Process.next ⟨setup.hosts, S.connectRc⟩ J cmsg) (.start S.run) ts).bind Process.exit

end TcpProxy
