import TcpProxy.Model.World

/-!
# `ConnectionManager` and `ProxyManager`

A proxy is owned by `ConnectionManager::_processors` alone, apart from the `shared_ptr`s that live
in one function: where such a one goes out of scope (`release`), the proxy is destroyed unless it
is still in `_processors`. Destructors run no callback.
-/

namespace TcpProxy

/-- `~ConnectionProcessor`. -/
def ConnectionProcessor.destroy (cp : ConnectionProcessor) (w : World) : Except Fault World :=
  match cp.bev with
  | some b => w.freeBev b
  | none => .ok w

/-- `~Proxy`: the forwarder goes first, then the base class. -/
def Proxy.destroy (p : ProxyPtr) (w : World) : Except Fault World := do
  let px ← w.proxy p
  let w ← match px.fwd with
    | some f => f.toConnectionProcessor.destroy w
    | none => .ok w
  let w ← px.toConnectionProcessor.destroy w
  .ok { w with proxies := w.proxies.free p }

/-- A local `shared_ptr` to the proxy `p` goes out of scope. -/
def release (p : ProxyPtr) (w : World) : Except Fault World :=
  if p ∈ w.cm.processors then .ok w else Proxy.destroy p w

namespace ConnectionManager

def addConnection (processor : ProxyPtr) (w : World) : Except Fault World := do
  let w ← w.lockMutex
  let w :=
    if w.cm.running then
      { w with cm := { w.cm with processors := w.cm.processors.insert processor } }
    else w
  w.unlockMutex

def dropConnection (processor : ProxyPtr) (w : World) : Except Fault World := do
  let w ← w.lockMutex
  let w ←
    if w.cm.running then
      -- `processor.lock()`: the last owner outside `_processors` goes at the end of this block
      if (w.proxies.get processor).isSome then
        release processor
          { w with cm := { w.cm with processors := w.cm.processors.erase processor } }
      else .ok w
    else .ok w
  w.unlockMutex

def dropAll (w : World) : Except Fault World := do
  let w ← w.lockMutex
  let processors := w.cm.processors
  let w := { w with cm := { w.cm with running := false, processors := [] } }
  -- `_processors.clear()`
  let w ← processors.foldlM (fun w p => Proxy.destroy p w) w
  w.unlockMutex

end ConnectionManager

namespace ProxyManager

/-- The id is filed for as long as nobody erases its key; the caller's proxy may be gone. -/
def onIdRecv (id : Int) (proxy : ProxyPtr) (w : World) : Except Fault World := do
  let w := { w with log := w.log ++ [Call.idRecv proxy id] }
  let w ← w.lockIds
  let w := w.setIdToConn (w.pm.idToConn.insert id proxy)
  w.unlockIds

def dropConnection (proxy : ProxyPtr) (w : World) : Except Fault World :=
  let w :=
    match w.proxies.get proxy with
    | some pp =>
      -- every entry of the key goes, not only the one of `proxy`
      if 0 ≤ pp.id then w.setIdToConn (Multimap.erase w.pm.idToConn pp.id) else w
    | none => w
  ConnectionManager.dropConnection proxy w

def dropAll (w : World) : Except Fault World := do
  let w ← ConnectionManager.dropAll w
  let w ← w.lockIds
  let w := w.setIdToConn []
  w.unlockIds

def dropById (id : Int) (w : World) : Except Fault World := do
  let w ← w.lockIds
  let allProxies := Multimap.values w.pm.idToConn id
  if allProxies.isEmpty then w.unlockIds
  else
    let w := w.setIdToConn (Multimap.erase w.pm.idToConn id)
    let w ← w.unlockIds
    allProxies.foldlM (fun w pr => ConnectionManager.dropConnection pr w) w

def addProxy (pr : ProxyPtr) (w : World) : Except Fault World := do
  let px ← w.proxy pr
  let w := w.setProxy pr { px with closeCb := some pr, idClb := some pr }
  ConnectionManager.addConnection pr w

end ProxyManager

end TcpProxy
