import TcpProxy.Lib.Heap
import TcpProxy.Lib.Libevent
import TcpProxy.Lib.Multimap
import TcpProxy.Model.Config

/-!
# The state of the proxy

The objects of the program at the moment between two callbacks of the event loop (`World`): the
open bufferevents and the live `Proxy` objects by address, `ConnectionManager` and `ProxyManager`.
A pointer is an address, a null or uninitialised pointer is `none`, a `std::weak_ptr` is the
address of the proxy (it can be locked while the proxy is alive: addresses are never used twice),
a `std::bind` is the object it is bound to, a mutex is whether it is held.

Members that are only logged or never read (`_bytesRead`, `_incoming`, `_dns_base`,
`_internalEvents`, the event bases) are left out; `Proxy::_config` is the same table for every
proxy, a parameter of the functions that read it. `World.log` is not part of the program: it
records the calls `Proxy` makes to report an id and to connect, which the program only logs.
An address is the number of an object, not a place in memory: an allocator may use a freed place
again, the numbers only go up.
-/

namespace TcpProxy

open Libevent

/-- The address of a `Proxy`. -/
abbrev ProxyPtr := Nat

/-- The address of a `bufferevent`, and of its input evbuffer. -/
abbrev BevPtr := Nat

/-- What must never happen. -/
inductive Fault
  /-- a member of a destroyed object is used -/
  | deadObject
  /-- a bufferevent that is null or freed is used -/
  | freedBev
  /-- a bufferevent is freed twice -/
  | doubleFree
  /-- `_fwd` is dereferenced while unset -/
  | unsetFwd
  /-- `_destination` is dereferenced while unset -/
  | unsetDestination
  /-- the input evbuffer is null or belongs to a freed bufferevent -/
  | badInput
  /-- an unset `std::function` is called -/
  | unsetCallback
  /-- a mutex is locked by the call chain that holds it, or unlocked while free -/
  | badLock
  deriving DecidableEq, Repr

/-- The `this` pointer a bufferevent's callbacks are registered with: a `Proxy`, or the
`Forwarder` that a proxy owns. -/
inductive Ctx
  | proxy (p : ProxyPtr)
  | forwarder (p : ProxyPtr)
  deriving DecidableEq, Repr

/-- The proxy that an object is or belongs to. -/
def Ctx.owner : Ctx → ProxyPtr
  | .proxy p => p
  | .forwarder p => p

/-- `ClientConnection`: the peer's address. -/
structure ClientConnection where
  ip : List Char
  port : UInt16
  deriving DecidableEq, Repr

/-- `ConnectionProcessor`. `connectCb` is the proxy whose `onConnected` is bound; `closeCb` is the
proxy bound to `ProxyManager::dropConnection` (in a `Proxy`) or to `Proxy::onFwdClose` (in a
`Forwarder`). -/
@[ext]
structure ConnectionProcessor where
  bev : Option BevPtr
  connectCb : Option ProxyPtr
  connecting : Bool
  closeCb : Option ProxyPtr
  host : List Char
  port : UInt16
  deriving DecidableEq

/-- `Forwarder`. -/
@[ext]
structure Forwarder extends ConnectionProcessor where
  destination : Option ProxyPtr
  deriving DecidableEq

inductive State
  | BEGIN
  | CONNECTING
  | FWD
  deriving DecidableEq, Repr

/-- `Proxy`. `idClb` is the proxy bound to `ProxyManager::onIdRecv`. -/
@[ext]
structure Proxy extends ConnectionProcessor where
  fwd : Option Forwarder
  state : State
  lastInput : Option BevPtr
  id : Int
  idClb : Option ProxyPtr
  deriving DecidableEq

/-- `ConnectionManager`. -/
structure ConnectionManager where
  processors : List ProxyPtr
  mutex : Bool
  running : Bool
  deriving DecidableEq

/-- `ProxyManager`. -/
structure ProxyManager where
  idToConn : Multimap Int ProxyPtr
  lock : Bool
  deriving DecidableEq

/-- A call that a proxy makes: `ProxyManager::onIdRecv` with the id it has received, or
`ConnectionProcessor::connect` with the host and the port that the table has for it. -/
inductive Call
  | idRecv (p : ProxyPtr) (id : Int)
  /-- the arguments of the call; libevent is given `host.c_str()`, the host up to its first NUL -/
  | connect (p : ProxyPtr) (host : Config.Host)
  deriving DecidableEq

/-- The proxy that makes a call. -/
def Call.caller : Call → ProxyPtr
  | .idRecv p _ => p
  | .connect p _ => p

structure World where
  bevs : Heap (Bufferevent Ctx)
  proxies : Heap Proxy
  cm : ConnectionManager
  pm : ProxyManager
  log : List Call

/-- The state when `main` enters the event loop. -/
def World.init : World where
  bevs := .empty
  proxies := .empty
  cm := ⟨[], false, true⟩
  pm := ⟨[], false⟩
  log := []

/-- What the program runs with: the host table, and what `bufferevent_socket_connect_hostname`
returns for each bufferevent (a bufferevent connects at most once). -/
structure Env where
  config : Config.Hosts
  connectRc : BevPtr → Int

/-! ## Sequencing -/

@[simp] theorem ok_bind {α β : Type} (a : α) (f : α → Except Fault β) :
    (Except.ok a >>= f) = f a := rfl

/-- The value of a pointer, or the fault of dereferencing null. -/
def orFault {α : Type} (e : Fault) : Option α → Except Fault α
  | some a => .ok a
  | none => .error e

@[simp] theorem orFault_some {α : Type} (e : Fault) (a : α) : orFault e (some a) = .ok a := rfl

namespace World

/-! ## Objects and locks -/

/-- The proxy at `p`. -/
def proxy (w : World) (p : ProxyPtr) : Except Fault Proxy := orFault .deadObject (w.proxies.get p)

def setProxy (w : World) (p : ProxyPtr) (px : Proxy) : World :=
  { w with proxies := w.proxies.set p px }

/-- The forwarder that the proxy at `p` owns. -/
def forwarder (w : World) (p : ProxyPtr) : Except Fault Forwarder := do
  let px ← w.proxy p
  orFault .unsetFwd px.fwd

def setForwarder (w : World) (p : ProxyPtr) (f : Forwarder) : World :=
  match w.proxies.get p with
  | some px => w.setProxy p { px with fwd := some f }
  | none => w

/-- The `ConnectionProcessor` part of the object that `this` points to. -/
def processor (w : World) : Ctx → Except Fault ConnectionProcessor
  | .proxy p => do
    let px ← w.proxy p
    .ok px.toConnectionProcessor
  | .forwarder p => do
    let f ← w.forwarder p
    .ok f.toConnectionProcessor

def setProcessor (w : World) (this : Ctx) (cp : ConnectionProcessor) : World :=
  match this with
  | .proxy p =>
    match w.proxies.get p with
    | some px => w.setProxy p { px with toConnectionProcessor := cp }
    | none => w
  | .forwarder p =>
    match w.proxies.get p with
    | some px =>
      match px.fwd with
      | some f => w.setForwarder p { f with toConnectionProcessor := cp }
      | none => w
    | none => w

/-- `bufferevent_free`. -/
def freeBev (w : World) (b : BevPtr) : Except Fault World :=
  if (w.bevs.get b).isSome then .ok { w with bevs := w.bevs.free b } else .error .doubleFree

def setIdToConn (w : World) (m : Multimap Int ProxyPtr) : World :=
  { w with pm := { w.pm with idToConn := m } }

/-- `ConnectionManager::_mutex`. -/
def lockMutex (w : World) : Except Fault World :=
  if w.cm.mutex then .error .badLock else .ok { w with cm := { w.cm with mutex := true } }

def unlockMutex (w : World) : Except Fault World :=
  if w.cm.mutex then .ok { w with cm := { w.cm with mutex := false } } else .error .badLock

/-- `ProxyManager::_lock`. -/
def lockIds (w : World) : Except Fault World :=
  if w.pm.lock then .error .badLock else .ok { w with pm := { w.pm with lock := true } }

def unlockIds (w : World) : Except Fault World :=
  if w.pm.lock then .ok { w with pm := { w.pm with lock := false } } else .error .badLock

end World

end TcpProxy
