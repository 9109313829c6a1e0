import TcpProxy.Proof.Close

/-!
# What the callbacks of one client do

Closed forms of `sendData`, `connect`, `dataRecieved`, `onConnected` and of the first message's
handling, on any state in which the objects they use are live and their bufferevents open.
-/

namespace TcpProxy

open Libevent World

variable {E : Env} {w : World} {p : ProxyPtr} {px : Proxy} {f : Forwarder} {b data : BevPtr}
  {X Y : Bufferevent Ctx}

/-! ## Moving a buffer -/

/-- `sendData` moves the input of `data` to the output of the object's bufferevent. -/
theorem ConnectionProcessor.sendData_ok {this : Ctx} {cp : ConnectionProcessor}
    (hcp : w.processor this = .ok cp) (hb : cp.bev = some b) (hX : w.bevs.get data = some X)
    (hY : w.bevs.get b = some Y) (hne : b ≠ data) :
    sendData this data w = .ok (true, { w with
      bevs := (w.bevs.set data { X with input := [] }).set b
        { Y with output := Y.output.push X.input } }) := by
  unfold sendData addBuffer
  simp only [hcp, hb, hX, orFault_some, ok_bind]
  rw [Heap.get_set_ne hne, hY]
  rfl

/-- A client whose backend is connected sends: its input goes to the forwarder's output. -/
theorem Proxy.dataRecieved_fwd (hp : w.proxies.get p = some px) (hst : px.state = .FWD)
    (hf : px.fwd = some f) (hb : f.bev = some b) (hX : w.bevs.get data = some X)
    (hY : w.bevs.get b = some Y) (hne : b ≠ data) :
    Proxy.dataRecieved E p data w = .ok { w with
      bevs := (w.bevs.set data { X with input := [] }).set b
        { Y with output := Y.output.push X.input } } := by
  unfold Proxy.dataRecieved
  simp only [proxy_ok hp, ok_bind, hst, hf, orFault_some,
    ConnectionProcessor.sendData_ok (processor_forwarder hp hf) hb hX hY hne]

/-- A client that waits for its backend sends: its input keeps the bytes. -/
theorem Proxy.dataRecieved_connecting (hp : w.proxies.get p = some px)
    (hst : px.state = .CONNECTING) : Proxy.dataRecieved E p data w = .ok w := by
  unfold Proxy.dataRecieved
  simp only [proxy_ok hp, ok_bind, hst]

/-- The backend sends: the forwarder's input goes to the client's output. -/
theorem Forwarder.dataRecieved_ok (hp : w.proxies.get p = some px) (hf : px.fwd = some f)
    (hd : f.destination = some p) (hb : px.bev = some b) (hX : w.bevs.get data = some X)
    (hY : w.bevs.get b = some Y) (hne : b ≠ data) :
    Forwarder.dataRecieved p data w = .ok { w with
      bevs := (w.bevs.set data { X with input := [] }).set b
        { Y with output := Y.output.push X.input } } := by
  unfold Forwarder.dataRecieved
  simp only [forwarder_ok hp hf, ok_bind, hd, orFault_some,
    ConnectionProcessor.sendData_ok (processor_proxy hp) hb hX hY hne]

/-- The backend has accepted: the input that the proxy remembers is sent and forgotten. -/
theorem Proxy.onConnected_ok (hp : w.proxies.get p = some px) (hin : px.lastInput = some data)
    (hf : px.fwd = some f) (hb : f.bev = some b) (hX : w.bevs.get data = some X)
    (hY : w.bevs.get b = some Y) (hne : b ≠ data) :
    Proxy.onConnected E p true w = .ok { w with
      bevs := (w.bevs.set data { X with input := [] }).set b
        { Y with output := Y.output.push X.input }
      proxies := w.proxies.set p { px with state := .FWD, lastInput := none } } := by
  have hget := Heap.get_set_self hp { px with state := .FWD }
  have hinput : orFault .badInput px.lastInput = .ok data := by rw [hin]; rfl
  unfold Proxy.onConnected
  simp only [Bool.not_true, Bool.false_eq_true, ↓reduceIte, proxy_ok hp, ok_bind, hinput]
  refine Eq.trans (congrArg (· >>= _)
    (Proxy.dataRecieved_fwd (w := w.setProxy p { px with state := .FWD })
      hget rfl hf hb hX hY hne)) ?_
  rw [ok_bind]
  refine Eq.trans (congrArg (· >>= _) (proxy_ok hget)) ?_
  simp only [ok_bind, World.setProxy, Heap.set_set]

theorem ConnectionProcessor.onEvent_connected {events : BitVec 16} (hn : isConnected events = true)
    (hp : w.proxies.get p = some px) (hf : px.fwd = some f) (hcb : f.connectCb = some p)
    (hin : px.lastInput = some data) (hb : f.bev = some b) (hX : w.bevs.get data = some X)
    (hY : w.bevs.get b = some Y) (hne : b ≠ data) :
    onEvent E (.forwarder p) events w = .ok { w with
      bevs := (w.bevs.set data { X with input := [] }).set b
        { Y with output := Y.output.push X.input }
      proxies := w.proxies.set p { px with
        fwd := some { f with connecting := false }, state := .FWD, lastInput := none } } := by
  have hget := Heap.get_set_self hp { px with fwd := some { f with connecting := false } }
  have hcall : callConnectCb E f.connectCb true = Proxy.onConnected E p true := by
    funext w
    rw [callConnectCb, hcb, orFault_some, ok_bind]
  unfold onEvent
  rw [processor_forwarder hp hf, ok_bind, if_pos hn, hcall]
  refine Eq.trans (congrArg _ (setProcessor_forwarder hp hf _)) ?_
  refine Eq.trans (Proxy.onConnected_ok hget hin rfl hb hX hY hne) ?_
  simp only [World.setProxy, Heap.set_set]

/-! ## The first message -/

theorem ProxyManager.onIdRecv_ok (hl : w.pm.lock = false) (id : Int) :
    ProxyManager.onIdRecv id p w = .ok { w with
      pm := ⟨w.pm.idToConn.insert id p, false⟩, log := w.log ++ [Call.idRecv p id] } := by
  unfold ProxyManager.onIdRecv lockIds unlockIds
  simp only [hl, Bool.false_eq_true, ↓reduceIte, ok_bind, setIdToConn]

theorem Proxy.newForwarder_ok (hp : w.proxies.get p = some px) (hf : px.fwd = none) :
    Proxy.newForwarder p w = .ok { w with
      bevs := w.bevs.alloc (.new (.forwarder p) .idle)
      proxies := w.proxies.set p { px with
        fwd := some
          { bev := some w.bevs.next, connectCb := none, connecting := false, closeCb := some p,
            host := [], port := 0, destination := some p } } } := by
  unfold Proxy.newForwarder
  simp only [proxy_ok hp, ok_bind, hf, World.setProxy]

/-- `connect` of a forwarder that has its bufferevent; `rc` is what the library returns. -/
theorem ConnectionProcessor.connect_ok (hp : w.proxies.get p = some px) (hf : px.fwd = some f)
    (hb : f.bev = some b) (hX : w.bevs.get b = some X) (host : Config.Host) :
    connect E (.forwarder p) host p w = .ok (decide (E.connectRc b = 0), { w with
      bevs := if E.connectRc b = 0 then w.bevs.set b { X with link := .connecting } else w.bevs
      proxies := w.proxies.set p { px with fwd := some { f with
        host := host.1, port := host.2, connecting := true, connectCb := some p } }
      log := w.log ++ [Call.connect p host] }) := by
  unfold connect
  rw [processor_forwarder hp hf, ok_bind]
  simp only [hb, orFault_some, ok_bind]
  rw [setProcessor_forwarder hp hf]
  simp only [hX, orFault_some, ok_bind, World.setProxy]
  split
  · rename_i h; simp [h, Ctx.owner]
  · rename_i h; simp [h, Ctx.owner]

/-- The state in which the proxy `px` at `p` has reported the id `id` and has asked for a
connection to `host`. -/
def World.dial (w : World) (p : ProxyPtr) (px : Proxy) (id : Int) (host : Config.Host) (link : Link)
    (state : State) : World where
  bevs := w.bevs.alloc (.new (.forwarder p) link)
  proxies := w.proxies.set p { px with
    id := id
    state := state
    fwd := some
      { bev := some w.bevs.next, connectCb := some p, connecting := true, closeCb := some p,
        host := host.1, port := host.2, destination := some p } }
  cm := w.cm
  pm := ⟨w.pm.idToConn.insert id p, false⟩
  log := w.log ++ [Call.idRecv p id, Call.connect p host]

theorem Proxy.connectTo_ok (hp : w.proxies.get p = some px) (hl : w.pm.lock = false)
    (hid : px.idClb = some p) (hf : px.fwd = none) (id : Int) (host : Config.Host) :
    Proxy.connectTo E p id host w =
      if E.connectRc w.bevs.next = 0 then .ok (w.dial p px id host .connecting .CONNECTING)
      else Proxy.close p (w.dial p px id host .idle px.state) := by
  obtain ⟨cp, fwd, state, lastInput, id₀, idClb⟩ := px
  obtain rfl : idClb = some p := hid
  obtain rfl : fwd = none := hf
  unfold Proxy.connectTo
  simp only [proxy_ok hp, ok_bind]
  refine Eq.trans (congrArg (· >>= _)
    (ProxyManager.onIdRecv_ok (w := w.setProxy p ⟨cp, none, state, lastInput, id, some p⟩)
      hl id)) ?_
  simp only [ok_bind]
  refine Eq.trans (congrArg (· >>= _)
    (Proxy.newForwarder_ok (Heap.get_set_self hp _) rfl)) ?_
  rw [ok_bind]
  refine Eq.trans (congrArg (· >>= _) (ConnectionProcessor.connect_ok
    (Heap.get_set_self (Heap.get_set_self hp _) _) rfl rfl (Heap.get_alloc_next _ _) host)) ?_
  simp only [ok_bind]
  by_cases hrc : E.connectRc w.bevs.next = 0
  · simp only [setProxy_bevs, hrc, decide_true, Bool.not_true, Bool.false_eq_true, ↓reduceIte]
    refine Eq.trans (congrArg (· >>= _) (proxy_ok
      (Heap.get_set_self (Heap.get_set_self (Heap.get_set_self hp _) _) _))) ?_
    simp only [ok_bind, World.setProxy, World.dial, Heap.set_set, Heap.set_alloc, Bufferevent.new,
      List.append_assoc, List.cons_append, List.nil_append]
  · simp only [hrc, decide_false, Bool.not_false, ↓reduceIte, World.setProxy, World.dial,
      Heap.set_set, List.append_assoc, List.cons_append, List.nil_append]

theorem Proxy.dataRecieved_begin (hp : w.proxies.get p = some px) (hst : px.state = .BEGIN) :
    Proxy.dataRecieved E p data w = Proxy.parseFirst E p data w := by
  unfold Proxy.dataRecieved
  simp only [proxy_ok hp, ok_bind, hst]

/-- Less than a header: the proxy remembers the input. -/
theorem Proxy.parseFirst_short (hp : w.proxies.get p = some px) (hX : w.bevs.get data = some X)
    (hl : X.input.length < 12) :
    Proxy.parseFirst E p data w = .ok (w.setProxy p { px with lastInput := some data }) := by
  unfold Proxy.parseFirst
  simp only [proxy_ok hp, ok_bind, setProxy_bevs, hX, orFault_some, Proxy.MSG_SIZE, hl, ↓reduceIte]

/-- With a header, its route decides. -/
theorem Proxy.parseFirst_long (hp : w.proxies.get p = some px) (hX : w.bevs.get data = some X)
    (hl : 12 ≤ X.input.length) :
    Proxy.parseFirst E p data w =
      match route E.config X.input with
      | none => Proxy.close p (w.setProxy p { px with lastInput := some data })
      | some (id, host) =>
        Proxy.connectTo E p id host (w.setProxy p { px with lastInput := some data }) := by
  have hcopy : copyout X.input 12 = (12, X.input.take 12) := by
    rw [copyout, Nat.min_eq_left hl]
  unfold Proxy.parseFirst
  simp only [proxy_ok hp, ok_bind, setProxy_bevs, hX, orFault_some, Proxy.MSG_SIZE,
    Nat.not_lt.2 hl, ↓reduceIte, hcopy, ne_eq, not_true_eq_false]
  rw [← route_take E.config hl]
  unfold route Proxy.TAG_INT Proxy.SIZE_INT
  split
  · split
    · rename_i he; simp only [he, ↓reduceIte]
    · rename_i he; simp only [he, Bool.false_eq_true, ↓reduceIte]
  · rfl

end TcpProxy
