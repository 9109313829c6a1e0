import TcpProxy.Lib.Runs
import TcpProxy.Model.Control
import TcpProxy.Model.Proxy

/-!
# The event loop

The callbacks the event loop of `main` runs, one at a time: a client is accepted, a socket has
delivered bytes, has taken bytes, or has changed state, a control message has arrived. `offers`
says which of these libevent can report in a state, `handle` is what the program does then;
`next` is one turn of the loop. A run of the proxy is a run of `next E` from `World.init`.
-/

namespace TcpProxy

open Libevent

inductive Event
  | accept (connection : ClientConnection)
  | read (b : BevPtr) (chunk : List UInt8)
  | write (b : BevPtr) (n : Nat)
  | event (b : BevPtr) (events : BitVec 16)
  | control (msg : ControlMessage)
  deriving DecidableEq

/-- One id is configured, and every connect is started. -/
def Env.single (id : Int) (host : Config.Host) : Env where
  config k := if k = id then some host else none
  connectRc _ := 0

theorem Env.single_config (id : Int) (host : Config.Host) :
    (Env.single id host).config = Function.update (fun _ => none) id (some host) := by
  funext k
  simp [Env.single, Function.update]

/-- `Proxy::Proxy` for an accepted connection, on the bufferevent `b`; `_lastInput` is left
uninitialised. -/
def Proxy.new (connection : ClientConnection) (b : BevPtr) : Proxy where
  bev := some b
  connectCb := none
  connecting := false
  closeCb := none
  host := connection.ip
  port := connection.port
  fwd := none
  state := .BEGIN
  lastInput := none
  id := -1
  idClb := none

/-- The callback `main` sets with `setOnClientConnect`; the temporary `shared_ptr` goes at its
end. -/
def onClientConnect (connection : ClientConnection) (w : World) : Except Fault World := do
  let p := w.proxies.next
  let b := w.bevs.next
  let w := { w with
    bevs := w.bevs.alloc (.new (.proxy p) .up)
    proxies := w.proxies.alloc (Proxy.new connection b) }
  let w ← ProxyManager.addProxy p w
  release p w

/-- The event is one that libevent can report: only of open bufferevents. -/
def offers (w : World) : Event → Bool
  | .accept _ => true
  | .read b chunk => (w.bevs.get b).any (·.canRead chunk)
  | .write b _ => (w.bevs.get b).any (·.canWrite)
  | .event b events => (w.bevs.get b).any (·.canReport events)
  | .control _ => true

/-- What the event does: libevent's part, then the program's callback. -/
def handle (E : Env) (w : World) : Event → Except Fault World
  | .accept connection => onClientConnect connection w
  | .read b chunk => do
    let bev ← orFault .freedBev (w.bevs.get b)
    ConnectionProcessor.readProxy E bev.ctx b { w with bevs := w.bevs.set b (bev.deliver chunk) }
  | .write b n => do
    let bev ← orFault .freedBev (w.bevs.get b)
    .ok { w with bevs := w.bevs.set b (bev.write n) }
  | .event b events => do
    let bev ← orFault .freedBev (w.bevs.get b)
    ConnectionProcessor.onEvent E bev.ctx events
      { w with bevs := w.bevs.set b (bev.report events) }
  | .control msg => Controller.onControlMessage msg w

/-- One turn of the loop, `none` where the event is not offered or its handling faults. -/
def next (E : Env) (w : World) (e : Event) : Option World :=
  if offers w e then (handle E w e).toOption else none

/-- The events `es` lead from `w` to `w'`. -/
abbrev Run (E : Env) : World → List Event → World → Prop := Runs.Run (next E)

/-- Some run of the proxy leads to `w`. -/
abbrev Reachable (E : Env) (w : World) : Prop := Runs.Reachable (next E) World.init w

theorem next_eq {E : Env} {w w' : World} {e : Event} :
    next E w e = some w' ↔ offers w e = true ∧ handle E w e = .ok w' := by
  unfold next
  split
  · rename_i h
    cases handle E w e <;> simp [Except.toOption, h]
  · rename_i h
    simp [h]

end TcpProxy
