import TcpProxy.Lib.Word32
import TcpProxy.Model.Manager

/-!
# `ConnectionProcessor`, `Proxy` and `Forwarder`

The virtual functions and the bound callbacks are resolved by the class of the object:
`Proxy.close` and `Forwarder.close` are `ConnectionProcessor::close` with the close callback that
`ProxyManager::addProxy` and `Proxy::dataRecieved` set.
-/

namespace TcpProxy

open Libevent

namespace ConnectionProcessor

/-- `evbuffer_add_buffer(output, data)`: the input of the bufferevent `data` is moved to the
output of the bufferevent `b`. -/
def addBuffer (b data : BevPtr) (w : World) : Except Fault World := do
  let src ← orFault .badInput (w.bevs.get data)
  let w := { w with bevs := w.bevs.set data { src with input := [] } }
  let dst ← orFault .freedBev (w.bevs.get b)
  .ok { w with bevs := w.bevs.set b { dst with output := dst.output.push src.input } }

/-- `sendData`: `evbuffer_add_buffer` does not fail. -/
def sendData (this : Ctx) (data : BevPtr) (w : World) : Except Fault (Bool × World) := do
  let cp ← w.processor this
  let b ← orFault .freedBev cp.bev
  let w ← addBuffer b data w
  .ok (true, w)

/-- `connect`: the host and the port are kept, the attempt is started. The name that libevent looks
up is `host.c_str()`, which ends at the first NUL; what comes of it is `E.connectRc`'s to say. -/
def connect (E : Env) (this : Ctx) (host : Config.Host) (cb : ProxyPtr) (w : World) :
    Except Fault (Bool × World) := do
  let cp ← w.processor this
  let w := w.setProcessor this
    { cp with host := host.1, port := host.2, connecting := true, connectCb := some cb }
  let b ← orFault .freedBev cp.bev
  -- `bufferevent_socket_connect_hostname`
  let bev ← orFault .freedBev (w.bevs.get b)
  let w := { w with log := w.log ++ [Call.connect this.owner host] }
  if E.connectRc b = 0 then
    .ok (true, { w with bevs := w.bevs.set b { bev with link := .connecting } })
  else .ok (false, w)

/-- The first half of `close`: the bufferevent is freed. -/
def closeBev (this : Ctx) (w : World) : Except Fault World := do
  let cp ← w.processor this
  match cp.bev with
  | some b => do
    let w ← w.freeBev b
    .ok (w.setProcessor this { cp with bev := none })
  | none => .ok w

end ConnectionProcessor

namespace Proxy

def MSG_SIZE : Nat := 12
def TAG_INT : BitVec 32 := 1
def SIZE_INT : BitVec 32 := 4

/-- `close` of a proxy. The callback drops the proxy, which ends its life. -/
def close (this : ProxyPtr) (w : World) : Except Fault World := do
  let px ← w.proxy this
  let w ← ConnectionProcessor.closeBev (.proxy this) w
  match px.closeCb with
  | some proxy => ProxyManager.dropConnection proxy w
  | none => .ok w

/-- `onFwdClose`. -/
def onFwdClose (this : ProxyPtr) (w : World) : Except Fault World := do
  let _ ← w.forwarder this
  close this w

/-- `_fwd.reset(new Forwarder(getEvents()))`, `setOnCloseCb`, `setDestination`. -/
def newForwarder (this : ProxyPtr) (w : World) : Except Fault World := do
  let px ← w.proxy this
  let b := w.bevs.next
  let w := { w with bevs := w.bevs.alloc (.new (.forwarder this) .idle) }
  let w ← match px.fwd with
    | some old => old.toConnectionProcessor.destroy w
    | none => .ok w
  .ok (w.setProxy this { px with
    fwd := some
      { bev := some b, connectCb := none, connecting := false, closeCb := some this,
        host := [], port := 0, destination := some this } })

/-- The rest of `dataRecieved` once an id that is configured has been read. -/
def connectTo (E : Env) (this : ProxyPtr) (id : Int) (host : Config.Host) (w : World) :
    Except Fault World := do
  let px ← w.proxy this
  let w := w.setProxy this { px with id := id }
  let w ← match px.idClb with
    | some proxy => ProxyManager.onIdRecv id proxy w
    | none => .ok w
  let w ← newForwarder this w
  let (res, w) ← ConnectionProcessor.connect E (.forwarder this) host this w
  if !res then close this w
  else
    let px ← w.proxy this
    .ok (w.setProxy this { px with state := .CONNECTING })

/-- `dataRecieved` in the state `BEGIN`: the first message. -/
def parseFirst (E : Env) (this : ProxyPtr) (input : BevPtr) (w : World) : Except Fault World := do
  let px ← w.proxy this
  let w := w.setProxy this { px with lastInput := some input }
  let buf ← orFault .badInput (w.bevs.get input)
  if buf.input.length < MSG_SIZE then .ok w
  else
    let (res, data) := copyout buf.input MSG_SIZE
    if res ≠ MSG_SIZE then close this w
    else if Word32.word data 0 = TAG_INT ∧ Word32.word data 1 = SIZE_INT then
      let id := (Word32.word data 2).toInt
      let host := Config.getHostById E.config id
      if host.1.isEmpty then close this w else connectTo E this id host w
    else close this w

/-- `dataRecieved`; in the state `CONNECTING` the data stays in the input. -/
def dataRecieved (E : Env) (this : ProxyPtr) (input : BevPtr) (w : World) :
    Except Fault World := do
  let px ← w.proxy this
  match px.state with
  | .FWD => do
    let _ ← orFault .unsetFwd px.fwd
    let (_, w) ← ConnectionProcessor.sendData (.forwarder this) input w
    .ok w
  | .BEGIN => parseFirst E this input w
  | .CONNECTING => .ok w

/-- `onConnected`; a failed connect is logged and nothing else. -/
def onConnected (E : Env) (this : ProxyPtr) (res : Bool) (w : World) : Except Fault World :=
  if !res then .ok w
  else do
    let px ← w.proxy this
    let w := w.setProxy this { px with state := .FWD }
    let input ← orFault .badInput px.lastInput
    let w ← dataRecieved E this input w
    let px ← w.proxy this
    .ok (w.setProxy this { px with lastInput := none })

end Proxy

namespace Forwarder

/-- `close` of the forwarder of the proxy `this`: the callback closes the proxy. -/
def close (this : ProxyPtr) (w : World) : Except Fault World := do
  let f ← w.forwarder this
  let w ← ConnectionProcessor.closeBev (.forwarder this) w
  match f.closeCb with
  | some proxy => Proxy.onFwdClose proxy w
  | none => .ok w

/-- `dataRecieved` of the forwarder of the proxy `this`; a failure to send is logged. -/
def dataRecieved (this : ProxyPtr) (input : BevPtr) (w : World) : Except Fault World := do
  let f ← w.forwarder this
  let dest ← orFault .unsetDestination f.destination
  let (_, w) ← ConnectionProcessor.sendData (.proxy dest) input w
  .ok w

end Forwarder

namespace ConnectionProcessor

/-- The virtual `close`. -/
def close : Ctx → World → Except Fault World
  | .proxy p => Proxy.close p
  | .forwarder p => Forwarder.close p

/-- `_connectCb(res)`. -/
def callConnectCb (E : Env) (cb : Option ProxyPtr) (res : Bool) (w : World) :
    Except Fault World := do
  let p ← orFault .unsetCallback cb
  Proxy.onConnected E p res w

/-- `onEvent`. -/
def onEvent (E : Env) (this : Ctx) (events : BitVec 16) (w : World) : Except Fault World := do
  let cp ← w.processor this
  if isConnected events then
    callConnectCb E cp.connectCb true (w.setProcessor this { cp with connecting := false })
  else if isClosed events then
    if cp.connecting then callConnectCb E cp.connectCb false w else close this w
  else .ok w

/-- `readProxy`: the virtual `dataRecieved` on the bufferevent's input. -/
def readProxy (E : Env) (this : Ctx) (b : BevPtr) (w : World) : Except Fault World :=
  match this with
  | .proxy p => Proxy.dataRecieved E p b w
  | .forwarder p => Forwarder.dataRecieved p b w

end ConnectionProcessor

end TcpProxy
