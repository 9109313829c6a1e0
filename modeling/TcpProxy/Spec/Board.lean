import TcpProxy.Spec.Session
import TcpProxy.Lib.Multimap

/-!
# The switchboard

What the proxy as a whole is for: a board of sessions by client, an index of the ids the clients
have reported, and whether new clients are taken. `Signal` is what can happen to it, `Board.step`
what it does then, without pointers, callbacks, locks or faults. Sockets are numbered in the order
they are opened.

`Proof/Refine.lean` shows that the program is this board.
-/

namespace TcpProxy

open Libevent

structure Board where
  sessions : Heap Session
  nextSock : BevPtr
  index : Multimap Int ProxyPtr
  running : Bool
  log : List Call

/-- What happens: of a client `p`, of its backend, or a control message. `dialed` says whether
the attempt to connect, if the bytes lead to one, is started. -/
inductive Signal
  | join (connection : ClientConnection)
  | fromClient (p : ProxyPtr) (chunk : List UInt8) (dialed : Bool)
  | fromBackend (p : ProxyPtr) (chunk : List UInt8)
  | toClient (p : ProxyPtr) (n : Nat)
  | toBackend (p : ProxyPtr) (n : Nat)
  | clientGone (p : ProxyPtr)
  | answered (p : ProxyPtr)
  | backendGone (p : ProxyPtr)
  | close (k : Int)
  | closeAll
  | idle

/-- The index after a client with this id has left by itself: a client that has an id, unless it
is negative, takes every entry of the id along. -/
def unfile (m : Multimap Int ProxyPtr) (id : Int) : Multimap Int ProxyPtr :=
  if 0 ≤ id then Multimap.erase m id else m

namespace Session

/-! ## How a client goes on -/

/-- Its socket takes `n` bytes. -/
def toClient (n : Nat) (s : Session) : Session :=
  match s.stage with
  | .greeting .. => s
  | .dialing id host peer failed parked down =>
    { s with stage := .dialing id host peer failed parked (down.take n) }
  | .relaying id host peer up down => { s with stage := .relaying id host peer up (down.take n) }

/-- Its backend's socket takes `n` bytes. -/
def toBackend (n : Nat) (s : Session) : Session :=
  match s.stage with
  | .relaying id host peer up down => { s with stage := .relaying id host peer (up.take n) down }
  | _ => s

/-- Its backend sends. -/
def fromBackend (chunk : List UInt8) (s : Session) : Session :=
  match s.stage with
  | .greeting .. => s
  | .dialing id host peer failed parked down =>
    { s with stage := .dialing id host peer failed parked (down.push chunk) }
  | .relaying id host peer up down =>
    { s with stage := .relaying id host peer up (down.push chunk) }

/-- It has sent its header, the start of `bs`, and the socket `peer` is to be connected. -/
def dial (s : Session) (id : Int) (host : Config.Host) (peer : BevPtr) (bs : List UInt8) :
    Session :=
  { s with stage := .dialing id host peer false bs .empty }

/-- The backend has accepted: what is parked goes out first. -/
def answered (s : Session) : Session :=
  match s.stage with
  | .dialing id host peer _ parked down =>
    { s with stage := .relaying id host peer (.push .empty parked) down }
  | _ => s

section
variable (s : Session) (p : ProxyPtr) (n : Nat) (chunk : List UInt8)

@[simp] theorem toClient_object : (s.toClient n).object p = s.object p := by
  rcases s with ⟨_, _, _ | _ | _⟩ <;> rfl

@[simp] theorem toBackend_object : (s.toBackend n).object p = s.object p := by
  rcases s with ⟨_, _, _ | _ | _⟩ <;> rfl

@[simp] theorem fromBackend_object : (s.fromBackend chunk).object p = s.object p := by
  rcases s with ⟨_, _, _ | _ | _⟩ <;> rfl

theorem toClient_clientBev : (s.toClient n).clientBev p = (s.clientBev p).write n := by
  rcases s with ⟨_, _, _ | _ | _⟩ <;> simp [toClient, clientBev, Bufferevent.write, parked,
    fromClient, down, Outbox.take, Outbox.empty]

theorem toClient_backendBev : (s.toClient n).backendBev p = s.backendBev p := by
  rcases s with ⟨_, _, _ | _ | _⟩ <;> simp [toClient, backendBev, link, down, up]

theorem toBackend_clientBev : (s.toBackend n).clientBev p = s.clientBev p := by
  rcases s with ⟨_, _, _ | _ | _⟩ <;> simp [toBackend, clientBev, parked, fromClient, down]

/-- Only a socket that is up takes bytes. -/
theorem toBackend_backendBev (h : s.link = .up) :
    (s.toBackend n).backendBev p = (s.backendBev p).write n := by
  rcases s with ⟨_, _, _ | ⟨_, _, _, _ | _, _, _⟩ | _⟩ <;> cases h
  rfl

theorem fromBackend_clientBev (h : s.peer.isSome) : (s.fromBackend chunk).clientBev p =
    { s.clientBev p with output := s.down.push chunk } := by
  rcases s with ⟨_, _, _ | _ | _⟩
  · cases h
  all_goals rfl

theorem fromBackend_backendBev (h : s.peer.isSome) : (s.fromBackend chunk).backendBev p =
    { (s.backendBev p).deliver chunk with input := [] } := by
  rcases s with ⟨_, _, _ | _ | _⟩
  · cases h
  all_goals simp [fromBackend, backendBev, Bufferevent.deliver, link, down, up]

end

end Session

namespace Board

def init : Board := ⟨.empty, 0, [], true, []⟩

/-- The client `p` is now in the session `s`. -/
def put (B : Board) (p : ProxyPtr) (s : Session) : Board :=
  { B with sessions := B.sessions.set p s }

/-- The client `p` is dropped. -/
def remove (B : Board) (p : ProxyPtr) : Board := { B with sessions := B.sessions.free p }

/-- The client `p`, in the session `s`, leaves by itself. -/
def leave (B : Board) (p : ProxyPtr) (s : Session) : Board :=
  { B.remove p with index := unfile B.index s.id }

/-- The client `p` has reported the id `id`, and a socket for its connection to `host` is opened. -/
def register (B : Board) (p : ProxyPtr) (id : Int) (host : Config.Host) : Board :=
  { B with
    nextSock := B.nextSock + 1
    index := B.index.insert id p
    log := B.log ++ [Call.idRecv p id, Call.connect p host] }

/-- The client `p` has sent its header, the first 12 bytes of `buf`. -/
def dispatch (hosts : Config.Hosts) (dialed : Bool) (B : Board) (p : ProxyPtr) (s : Session)
    (buf : List UInt8) : Board :=
  match route hosts buf with
  | none => B.leave p s
  | some (id, host) =>
    if dialed then (B.register p id host).put p (s.dial id host B.nextSock buf)
    else (B.register p id host).leave p (s.dial id host B.nextSock buf)

def fromClient (hosts : Config.Hosts) (dialed : Bool) (B : Board) (p : ProxyPtr) (s : Session)
    (chunk : List UInt8) : Board :=
  match s.stage with
  | .greeting buf _ =>
    if h : (buf ++ chunk).length < 12 then
      B.put p { s with stage := .greeting (buf ++ chunk) h }
    else dispatch hosts dialed B p s (buf ++ chunk)
  | .dialing id host peer failed parked down =>
    B.put p { s with stage := .dialing id host peer failed (parked ++ chunk) down }
  | .relaying id host peer up down =>
    B.put p { s with stage := .relaying id host peer (up.push chunk) down }

/-- The backend's socket has closed or failed. While the connect is in progress the client is
left where it is. -/
def backendGone (B : Board) (p : ProxyPtr) (s : Session) : Board :=
  match s.stage with
  | .greeting .. => B
  | .dialing id host peer _ parked down =>
    B.put p { s with stage := .dialing id host peer true parked down }
  | .relaying .. => B.leave p s

def join (B : Board) (connection : ClientConnection) : Board :=
  let sessions := B.sessions.alloc (.new connection B.nextSock)
  { B with
    -- a board that has been closed takes nobody
    sessions := if B.running then sessions else sessions.free B.sessions.next
    nextSock := B.nextSock + 1 }

/-- Every client filed under `k` is dropped. -/
def close (B : Board) (k : Int) : Board :=
  { B with
    sessions := (Multimap.values B.index k).foldl Heap.free B.sessions
    index := Multimap.erase B.index k }

/-- Every client is dropped, and the board is closed. -/
def closeAll (B : Board) : Board :=
  { B with sessions := B.sessions.clear, index := [], running := false }

/-- `f` of the client `p` and its session, if `p` is connected. -/
def onClient (B : Board) (p : ProxyPtr) (f : Session → Board) : Board := (B.sessions.get p).elim B f

def step (hosts : Config.Hosts) (B : Board) : Signal → Board
  | .join connection => B.join connection
  | .fromClient p chunk dialed => B.onClient p fun s => fromClient hosts dialed B p s chunk
  | .fromBackend p chunk => B.onClient p fun s => B.put p (s.fromBackend chunk)
  | .toClient p n => B.onClient p fun s => B.put p (s.toClient n)
  | .toBackend p n => B.onClient p fun s => B.put p (s.toBackend n)
  | .clientGone p => B.onClient p fun s => B.leave p s
  | .answered p => B.onClient p fun s => B.put p s.answered
  | .backendGone p => B.onClient p fun s => B.backendGone p s
  | .close k => B.close k
  | .closeAll => B.closeAll
  | .idle => B

theorem join_running {B : Board} (h : B.running = true) (connection : ClientConnection) :
    B.join connection = { B with
      sessions := B.sessions.alloc (.new connection B.nextSock), nextSock := B.nextSock + 1 } := by
  simp [join, h]

theorem join_stopped {B : Board} (h : B.running = false) (connection : ClientConnection) :
    B.join connection = { B with
      sessions := (B.sessions.alloc (.new connection B.nextSock)).free B.sessions.next
      nextSock := B.nextSock + 1 } := by simp [join, h]

theorem onClient_some {B : Board} {p : ProxyPtr} {s : Session} (h : B.sessions.get p = some s)
    (f : Session → Board) : B.onClient p f = f s := by simp [Board.onClient, h]

theorem onClient_none {B : Board} {p : ProxyPtr} (h : B.sessions.get p = none)
    (f : Session → Board) : B.onClient p f = B := by simp [Board.onClient, h]

section
variable (B : Board) (p : ProxyPtr) (s : Session)

@[simp] theorem put_sessions : (B.put p s).sessions = B.sessions.set p s := rfl
@[simp] theorem put_index : (B.put p s).index = B.index := rfl
@[simp] theorem put_running : (B.put p s).running = B.running := rfl
@[simp] theorem put_log : (B.put p s).log = B.log := rfl
@[simp] theorem put_nextSock : (B.put p s).nextSock = B.nextSock := rfl
@[simp] theorem remove_sessions : (B.remove p).sessions = B.sessions.free p := rfl
@[simp] theorem remove_index : (B.remove p).index = B.index := rfl
@[simp] theorem remove_running : (B.remove p).running = B.running := rfl
@[simp] theorem remove_log : (B.remove p).log = B.log := rfl
@[simp] theorem remove_nextSock : (B.remove p).nextSock = B.nextSock := rfl
@[simp] theorem leave_sessions : (B.leave p s).sessions = B.sessions.free p := rfl
@[simp] theorem leave_index : (B.leave p s).index = unfile B.index s.id := rfl
@[simp] theorem leave_running : (B.leave p s).running = B.running := rfl
@[simp] theorem leave_log : (B.leave p s).log = B.log := rfl
@[simp] theorem leave_nextSock : (B.leave p s).nextSock = B.nextSock := rfl

variable (id : Int) (host : Config.Host)

@[simp] theorem register_sessions : (B.register p id host).sessions = B.sessions := rfl
@[simp] theorem register_index : (B.register p id host).index = B.index.insert id p := rfl
@[simp] theorem register_running : (B.register p id host).running = B.running := rfl
@[simp] theorem register_log : (B.register p id host).log =
    B.log ++ [Call.idRecv p id, Call.connect p host] := rfl
@[simp] theorem register_nextSock : (B.register p id host).nextSock = B.nextSock + 1 := rfl

end

end Board

end TcpProxy
