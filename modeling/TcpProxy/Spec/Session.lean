import TcpProxy.Lib.Word32
import TcpProxy.Model.World

/-!
# Sessions

What a connected client is, whatever objects the program keeps for it: a socket on which it is
still sending its header, or has sent one and waits for its backend, or is joined to its backend
by two byte pipes. A header is the words 1, 4 and the client's id; `route` is the backend it leads
to. Every value of `Session` is possible; which objects show a session is `Session.object`,
`Session.clientBev` and `Session.backendBev`.
-/

namespace TcpProxy

open Libevent

/-- The header of a client with id `k`. -/
def header (k : Int) : List UInt8 := Word32.encode [1, 4, BitVec.ofInt 32 k]

/-- The id and the backend that the header at the front of `bs` leads to. -/
def route (hosts : Config.Hosts) (bs : List UInt8) : Option (Int × Config.Host) :=
  if Word32.word bs 0 = 1 ∧ Word32.word bs 1 = 4 then
    let id := (Word32.word bs 2).toInt
    let host := Config.getHostById hosts id
    if host.1.isEmpty then none else some (id, host)
  else none

/-- How far a client has come. The header is shorter than 12 bytes while it is being sent; from
then on the client has an id, a backend and the socket `peer` towards it. -/
inductive Stage
  | greeting (buf : List UInt8) (short : buf.length < 12)
  | dialing (id : Int) (host : Config.Host) (peer : BevPtr) (failed : Bool) (parked : List UInt8)
      (down : Outbox UInt8)
  | relaying (id : Int) (host : Config.Host) (peer : BevPtr) (up down : Outbox UInt8)

structure Session where
  connection : ClientConnection
  sock : BevPtr
  stage : Stage

namespace Session

/-- A client that has just been accepted. -/
def new (connection : ClientConnection) (sock : BevPtr) : Session :=
  ⟨connection, sock, .greeting [] (by decide)⟩

def id (s : Session) : Int :=
  match s.stage with
  | .greeting .. => -1
  | .dialing id .. => id
  | .relaying id .. => id

def state (s : Session) : State :=
  match s.stage with
  | .greeting .. => .BEGIN
  | .dialing .. => .CONNECTING
  | .relaying .. => .FWD

/-- The socket towards the backend. -/
def peer (s : Session) : Option BevPtr :=
  match s.stage with
  | .greeting .. => none
  | .dialing _ _ peer .. => some peer
  | .relaying _ _ peer .. => some peer

/-- The backend that the client's header has led to. -/
def backend (s : Session) : Option Config.Host :=
  match s.stage with
  | .greeting .. => none
  | .dialing _ host .. => some host
  | .relaying _ host .. => some host

/-- Everything the client has sent. -/
def fromClient (s : Session) : List UInt8 :=
  match s.stage with
  | .greeting buf _ => buf
  | .dialing _ _ _ _ parked _ => parked
  | .relaying _ _ _ up _ => up.all

/-- The bytes for the client. -/
def down (s : Session) : Outbox UInt8 :=
  match s.stage with
  | .greeting .. => .empty
  | .dialing _ _ _ _ _ down => down
  | .relaying _ _ _ _ down => down

/-- The bytes for the backend. -/
def up (s : Session) : Outbox UInt8 :=
  match s.stage with
  | .greeting .. => .empty
  | .dialing .. => .empty
  | .relaying _ _ _ up _ => up

/-- The client's bytes that wait for the backend to be connected. -/
def parked (s : Session) : List UInt8 :=
  match s.stage with
  | .greeting buf _ => buf
  | .dialing _ _ _ _ parked _ => parked
  | .relaying .. => []

/-- What the client has sent is what has been passed on, then what is parked. -/
theorem up_all_append_parked (s : Session) : s.up.all ++ s.parked = s.fromClient := by
  rcases s with ⟨c, b, stage⟩
  cases stage <;> simp [up, parked, fromClient]

theorem stage_of_begin {s : Session} (h : s.state = .BEGIN) :
    ∃ short, s.stage = .greeting s.parked short := by
  rcases s with ⟨c, b, stage⟩
  cases stage with
  | greeting buf short => exact ⟨short, rfl⟩
  | dialing | relaying => cases h

theorem fromClient_of_begin {s : Session} (h : s.state = .BEGIN) : s.fromClient = s.parked := by
  obtain ⟨short, hst⟩ := stage_of_begin h
  simp [fromClient, hst]

theorem down_of_begin {s : Session} (h : s.state = .BEGIN) : s.down = .empty := by
  obtain ⟨short, hst⟩ := stage_of_begin h
  simp [down, hst]

/-- Nothing is passed on before the backend is connected. -/
theorem up_of_not_fwd {s : Session} (h : s.state ≠ .FWD) : s.up = .empty := by
  rcases s with ⟨c, b, stage⟩
  cases stage with
  | greeting | dialing => rfl
  | relaying => exact absurd rfl h

/-- Nothing is parked from then on. -/
theorem parked_of_fwd {s : Session} (h : s.state = .FWD) : s.parked = [] := by
  rcases s with ⟨c, b, stage⟩
  cases stage with
  | relaying => rfl
  | greeting | dialing => cases h

theorem peer_of_begin {s : Session} (h : s.state = .BEGIN) : s.peer = none := by
  obtain ⟨short, hst⟩ := stage_of_begin h
  simp [peer, hst]

theorem id_of_peer_none {s : Session} (h : s.peer = none) : s.id = -1 := by
  rcases s with ⟨c, b, stage⟩
  cases stage with
  | greeting => rfl
  | dialing | relaying => cases h

theorem stage_of_connecting {s : Session} (h : s.state = .CONNECTING) :
    ∃ id host peer failed down, s.stage = .dialing id host peer failed s.parked down := by
  rcases s with ⟨c, b, stage⟩
  cases stage with
  | dialing id host peer failed parked down => exact ⟨id, host, peer, failed, down, rfl⟩
  | greeting | relaying => cases h

theorem stage_of_fwd {s : Session} (h : s.state = .FWD) :
    ∃ id host peer, s.stage = .relaying id host peer s.up s.down := by
  rcases s with ⟨c, b, stage⟩
  cases stage with
  | relaying id host peer up down => exact ⟨id, host, peer, rfl⟩
  | greeting | dialing => cases h

/-! ## The objects that show a session -/

/-- The forwarder of the client `p`. -/
def fwd (s : Session) (p : ProxyPtr) : Option Forwarder :=
  match s.stage with
  | .greeting .. => none
  | .dialing _ host peer .. => some
      { bev := some peer, connectCb := some p, connecting := true, closeCb := some p,
        host := host.1, port := host.2, destination := some p }
  | .relaying _ host peer .. => some
      { bev := some peer, connectCb := some p, connecting := false, closeCb := some p,
        host := host.1, port := host.2, destination := some p }

/-- The input that the proxy of the client remembers. -/
def lastInput (s : Session) : Option BevPtr :=
  match s.stage with
  | .greeting buf _ => if buf = [] then none else some s.sock
  | .dialing .. => some s.sock
  | .relaying .. => none

/-- The `Proxy` of the client `p`. -/
def object (s : Session) (p : ProxyPtr) : Proxy where
  bev := some s.sock
  connectCb := none
  connecting := false
  closeCb := some p
  host := s.connection.ip
  port := s.connection.port
  fwd := s.fwd p
  state := s.state
  lastInput := s.lastInput
  id := s.id
  idClb := some p

/-- The bufferevent of the client `p`. -/
def clientBev (s : Session) (p : ProxyPtr) : Bufferevent Ctx where
  ctx := .proxy p
  link := .up
  input := s.parked
  received := s.fromClient
  output := s.down

/-- The socket towards the backend: the connect is in progress, has failed or has succeeded. -/
def link (s : Session) : Link :=
  match s.stage with
  | .greeting .. => .idle
  | .dialing _ _ _ failed _ _ => if failed then .down else .connecting
  | .relaying .. => .up

/-- Only a connect in progress leaves a client with a failed socket. -/
theorem of_down {s : Session} (h : s.link = .down) :
    ∃ b, s.peer = some b ∧ s.state = .CONNECTING := by
  rcases s with ⟨c, b, stage⟩
  cases stage with
  | dialing id host peer failed parked down => exact ⟨peer, rfl, rfl⟩
  | greeting | relaying => cases h

/-- The bufferevent of the forwarder of the client `p`. -/
def backendBev (s : Session) (p : ProxyPtr) : Bufferevent Ctx where
  ctx := .forwarder p
  link := s.link
  input := []
  received := s.down.all
  output := s.up

section
variable (s : Session) (p : ProxyPtr)

@[simp] theorem object_bev : (s.object p).bev = some s.sock := rfl
@[simp] theorem object_closeCb : (s.object p).closeCb = some p := rfl
@[simp] theorem object_idClb : (s.object p).idClb = some p := rfl
@[simp] theorem object_connecting : (s.object p).connecting = false := rfl
@[simp] theorem object_id : (s.object p).id = s.id := rfl
@[simp] theorem object_state : (s.object p).state = s.state := rfl
@[simp] theorem object_fwd : (s.object p).fwd = s.fwd p := rfl
@[simp] theorem object_lastInput : (s.object p).lastInput = s.lastInput := rfl
@[simp] theorem clientBev_ctx : (s.clientBev p).ctx = .proxy p := rfl
@[simp] theorem backendBev_ctx : (s.backendBev p).ctx = .forwarder p := rfl

theorem fwd_bev : (s.fwd p).bind (·.bev) = s.peer := by
  unfold fwd peer
  cases s.stage <;> rfl

theorem fwd_eq_none : s.fwd p = none ↔ s.state = .BEGIN := by
  rcases s with ⟨c, b, stage⟩
  cases stage <;> simp [fwd, state]

/-- A forwarder is bound to the socket towards the backend. -/
theorem peer_of_fwd {f : Forwarder} (h : s.fwd p = some f) :
    ∃ b, s.peer = some b ∧ f.bev = some b := by
  rcases s with ⟨c, b, stage⟩
  cases stage with
  | greeting => cases h
  | dialing id host peer failed parked down | relaying id host peer up down =>
    cases h
    exact ⟨peer, rfl, rfl⟩

theorem peer_of_object {s t : Session} {p : ProxyPtr} (h : t.object p = s.object p) :
    t.peer = s.peer := by
  rw [← fwd_bev t p, ← fwd_bev s p]
  exact congrArg (fun px : Proxy => px.fwd.bind (·.bev)) h

theorem sock_of_object {s t : Session} {p : ProxyPtr} (h : t.object p = s.object p) :
    t.sock = s.sock := by simpa using congrArg (fun px : Proxy => px.bev) h

/-- What is under way to and from a client does not show in its proxy. -/
theorem object_dialing {s : Session} {id : Int} {host : Config.Host} {peer : BevPtr}
    {failed failed' : Bool} {parked parked' : List UInt8} {down down' : Outbox UInt8}
    (hst : s.stage = .dialing id host peer failed parked down) :
    object { s with stage := .dialing id host peer failed' parked' down' } p = s.object p := by
  simp [object, fwd, state, lastInput, Session.id, hst]

theorem object_relaying {s : Session} {id : Int} {host : Config.Host} {peer : BevPtr}
    {up up' down down' : Outbox UInt8} (hst : s.stage = .relaying id host peer up down) :
    object { s with stage := .relaying id host peer up' down' } p = s.object p := by
  simp [object, fwd, state, lastInput, Session.id, hst]

/-- A client that has a backend has a forwarder, bound to it. -/
theorem fwd_of_peer {b : BevPtr} (h : s.peer = some b) :
    ∃ f, s.fwd p = some f ∧ f.bev = some b ∧ f.connectCb = some p ∧ f.closeCb = some p ∧
      f.destination = some p ∧ f.connecting = decide (s.state = .CONNECTING) := by
  unfold peer at h
  unfold fwd state
  cases hst : s.stage <;> simp_all

end

end Session

/-! ## The header -/

/-- What the header of `k` has in its three words. -/
theorem header_prefix_iff {bs : List UInt8} (hl : 12 ≤ bs.length) (k : Int) :
    header k <+: bs ↔ Word32.word bs 0 = 1 ∧ Word32.word bs 1 = 4 ∧
      Word32.word bs 2 = BitVec.ofInt 32 k := by
  rw [header, Word32.encode_prefix_iff]
  constructor
  · rintro ⟨-, h⟩
    exact ⟨h 0 (by simp), h 1 (by simp), h 2 (by simp)⟩
  · rintro ⟨h0, h1, h2⟩
    refine ⟨hl, fun i hi => ?_⟩
    match i, hi with
    | 0, _ => exact h0
    | 1, _ => exact h1
    | 2, _ => exact h2

/-- **The decision is the header's**: a byte string of at least 12 bytes leads to the backend
`host` as the client `k` exactly if it starts with the header of `k` and the table has `host`
for `k`. -/
theorem route_eq_some {hosts : Config.Hosts} (hn : Config.Named hosts) {bs : List UInt8}
    (hl : 12 ≤ bs.length) {k : Int} {host : Config.Host} :
    route hosts bs = some (k, host) ↔
      -2 ^ 31 ≤ k ∧ k < 2 ^ 31 ∧ header k <+: bs ∧ hosts k = some host := by
  rw [header_prefix_iff hl]
  unfold route
  split
  · rename_i hw
    obtain ⟨h0, h1⟩ := hw
    simp only [h0, h1, true_and]
    split
    · rename_i he
      rw [Config.getHostById_isEmpty hn] at he
      constructor
      · intro h; cases h
      · rintro ⟨hlo, hhi, h2, hk⟩
        rw [h2, Word32.toInt_ofInt hlo hhi, hk] at he
        cases he
    · rename_i he
      have hsome := Config.eq_getHostById hn (by simpa using he)
      constructor
      · intro h
        obtain ⟨rfl, rfl⟩ := Prod.mk.inj (Option.some.inj h)
        have hlo := BitVec.le_toInt (Word32.word bs 2)
        have hhi := BitVec.toInt_lt (x := Word32.word bs 2)
        exact ⟨by omega, by omega, (Word32.ofInt_toInt _).symm, hsome⟩
      · rintro ⟨hlo, hhi, h2, hk⟩
        rw [h2, Word32.toInt_ofInt hlo hhi] at hsome ⊢
        rw [Option.some.inj (hsome.symm.trans hk)]
  · rename_i hw
    constructor
    · intro h; cases h
    · rintro ⟨-, -, ⟨h0, h1, -⟩, -⟩
      exact absurd ⟨h0, h1⟩ hw

/-- The decision depends on the first 12 bytes only. -/
theorem route_append (hosts : Config.Hosts) {bs : List UInt8} (hl : 12 ≤ bs.length)
    (cs : List UInt8) : route hosts (bs ++ cs) = route hosts bs := by
  unfold route
  rw [Word32.word_append (by omega), Word32.word_append (by omega), Word32.word_append (by omega)]

theorem route_take (hosts : Config.Hosts) {bs : List UInt8} (hl : 12 ≤ bs.length) :
    route hosts (bs.take 12) = route hosts bs := by
  conv => rhs; rw [← List.take_append_drop 12 bs]
  rw [route_append _ (by rw [List.length_take]; omega)]

end TcpProxy
