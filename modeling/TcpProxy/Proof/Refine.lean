import TcpProxy.Proof.Traffic

/-!
# The program is the switchboard

`label` says what an event of the event loop means for the clients. `handle_refines`: in a state
that represents a board, whatever event libevent can report is handled without a fault, and the
state it leads to represents the board one signal later. So every reachable state represents a
board, and an invariant of boards is one of the program (`reachable_represents`).
-/

namespace TcpProxy

open Libevent World

/-- What an event means, by the callback argument of the bufferevent it is reported for. -/
def label (E : Env) (w : World) : Event → Signal
  | .accept connection => .join connection
  | .read b chunk =>
    match (w.bevs.get b).map Bufferevent.ctx with
    | some (.proxy p) => .fromClient p chunk (decide (E.connectRc w.bevs.next = 0))
    | some (.forwarder p) => .fromBackend p chunk
    | none => .idle
  | .write b n =>
    match (w.bevs.get b).map Bufferevent.ctx with
    | some (.proxy p) => .toClient p n
    | some (.forwarder p) => .toBackend p n
    | none => .idle
  | .event b events =>
    match (w.bevs.get b).map Bufferevent.ctx with
    | some (.proxy p) => if isClosed events then .clientGone p else .idle
    | some (.forwarder p) =>
      if isConnected events then .answered p
      else if isClosed events then .backendGone p
      else .idle
    | none => .idle
  | .control msg =>
    match msg.type with
    | .CLOSE => .close msg.id
    | .CLOSE_ALL => .closeAll
    | .other _ => .idle

/-- The ways in which an event has a meaning. -/
inductive Means (E : Env) (w : World) : Event → Signal → Prop
  | accept (connection : ClientConnection) : Means E w (.accept connection) (.join connection)
  | fromClient {b : BevPtr} {chunk : List UInt8} {X : Bufferevent Ctx} {p : ProxyPtr}
      (hX : w.bevs.get b = some X) (hp : X.ctx = .proxy p) :
      Means E w (.read b chunk) (.fromClient p chunk (decide (E.connectRc w.bevs.next = 0)))
  | fromBackend {b : BevPtr} {chunk : List UInt8} {X : Bufferevent Ctx} {p : ProxyPtr}
      (hX : w.bevs.get b = some X) (hp : X.ctx = .forwarder p) :
      Means E w (.read b chunk) (.fromBackend p chunk)
  | toClient {b : BevPtr} {n : Nat} {X : Bufferevent Ctx} {p : ProxyPtr}
      (hX : w.bevs.get b = some X) (hp : X.ctx = .proxy p) : Means E w (.write b n) (.toClient p n)
  | toBackend {b : BevPtr} {n : Nat} {X : Bufferevent Ctx} {p : ProxyPtr}
      (hX : w.bevs.get b = some X) (hp : X.ctx = .forwarder p) :
      Means E w (.write b n) (.toBackend p n)
  | clientGone {b : BevPtr} {events : BitVec 16} {X : Bufferevent Ctx} {p : ProxyPtr}
      (hX : w.bevs.get b = some X) (hp : X.ctx = .proxy p) (hc : isClosed events = true) :
      Means E w (.event b events) (.clientGone p)
  | answered {b : BevPtr} {events : BitVec 16} {X : Bufferevent Ctx} {p : ProxyPtr}
      (hX : w.bevs.get b = some X) (hp : X.ctx = .forwarder p) (hn : isConnected events = true) :
      Means E w (.event b events) (.answered p)
  | backendGone {b : BevPtr} {events : BitVec 16} {X : Bufferevent Ctx} {p : ProxyPtr}
      (hX : w.bevs.get b = some X) (hp : X.ctx = .forwarder p) (hn : isConnected events = false)
      (hc : isClosed events = true) : Means E w (.event b events) (.backendGone p)
  | close (k : Int) : Means E w (.control ⟨.CLOSE, k⟩) (.close k)
  | closeAll (k : Int) : Means E w (.control ⟨.CLOSE_ALL, k⟩) .closeAll
  | idle (e : Event) : Means E w e .idle

theorem label_means (E : Env) (w : World) (e : Event) : Means E w e (label E w e) := by
  cases e with
  | accept connection => exact .accept connection
  | read b chunk =>
    rcases hX : w.bevs.get b with _ | ⟨p | p, _, _, _, _⟩ <;> simp only [label, hX]
    · exact .idle _
    · exact .fromClient hX rfl
    · exact .fromBackend hX rfl
  | write b n =>
    rcases hX : w.bevs.get b with _ | ⟨p | p, _, _, _, _⟩ <;> simp only [label, hX]
    · exact .idle _
    · exact .toClient hX rfl
    · exact .toBackend hX rfl
  | event b events =>
    rcases hX : w.bevs.get b with _ | ⟨p | p, _, _, _, _⟩ <;> simp only [label, hX]
    · exact .idle _
    · rcases hc : isClosed events with _ | _
      · exact .idle _
      · exact .clientGone hX rfl hc
    · rcases hn : isConnected events with _ | _
      · rcases hc : isClosed events with _ | _
        · exact .idle _
        · exact .backendGone hX rfl hn hc
      · exact .answered hX rfl hn
  | control msg =>
    rcases msg with ⟨_ | _ | _, k⟩
    · exact .close k
    · exact .closeAll k
    · exact .idle _

variable {E : Env} {w w' : World} {B : Board} {p : ProxyPtr} {s : Session}

/-! ## Control messages -/

/-- The clients filed under an id are dropped one after the other; some may be gone already. -/
theorem dropEach (l : List ProxyPtr) : ∀ {w : World} {B : Board}, Represents w B →
    ∃ w', l.foldlM (fun w pr => ConnectionManager.dropConnection pr w) w = .ok w' ∧
      Represents w' { B with sessions := l.foldl Heap.free B.sessions } ∧
      w'.cm.processors.Sublist w.cm.processors := by
  induction l with
  | nil => exact fun h => ⟨_, rfl, h, List.Sublist.refl _⟩
  | cons p l ih =>
    intro w B h
    rw [List.foldlM_cons]
    rcases hs : B.sessions.get p with _ | s
    · rw [ConnectionManager.dropConnection_gone h.mutex (h.gone hs), ok_bind, List.foldl_cons,
        Heap.free_of_none hs]
      exact ih h
    · rw [ConnectionManager.dropConnection_ok (h.canDrop hs) (h.object hs) (h.holds hs), ok_bind]
      obtain ⟨w', hok, hr, hsub⟩ := ih (B := B.remove p) (h.drop hs)
      exact ⟨w', hok, hr, hsub.trans List.erase_sublist⟩

theorem dropById_refines (h : Represents w B) (k : Int) :
    ∃ w', ProxyManager.dropById k w = .ok w' ∧ Represents w' (B.close k) ∧
      w'.cm.processors.Sublist w.cm.processors := by
  unfold ProxyManager.dropById lockIds
  simp only [h.lock, Bool.false_eq_true, ↓reduceIte, ok_bind]
  split
  · rename_i he
    have hnil : Multimap.values B.index k = [] := by
      rw [← h.index]
      simpa using he
    have hsame : B.close k = B := by
      simp [Board.close, hnil, Multimap.erase_of_values_nil hnil]
    refine ⟨w, ?_, by rw [hsame]; exact h, List.Sublist.refl _⟩
    simp [unlockIds, ← h.lock]
  · have hw : Represents (w.setIdToConn (Multimap.erase w.pm.idToConn k))
        { B with index := Multimap.erase B.index k } :=
      h.of_index (congrArg (Multimap.erase · k) h.index)
    obtain ⟨w', hok, hr, hsub⟩ := dropEach (Multimap.values w.pm.idToConn k) hw
    refine ⟨w', Eq.trans ?_ hok, ?_, hsub⟩
    · simp [unlockIds, setIdToConn, h.lock]
    · rw [h.index] at hr
      exact hr

/-- All clients are destroyed one after the other. -/
theorem destroyEach (l : List ProxyPtr) : ∀ {w : World} {B : Board}, Shows w B → l.Nodup →
    (∀ p ∈ l, (B.sessions.get p).isSome) →
    ∃ w', l.foldlM (fun w p => Proxy.destroy p w) w = .ok w' ∧
      Shows w' { B with sessions := l.foldl Heap.free B.sessions } ∧
      w'.cm = w.cm ∧ w'.pm = w.pm ∧ w'.log = w.log := by
  induction l with
  | nil => exact fun h _ _ => ⟨_, rfl, h, rfl, rfl, rfl⟩
  | cons p l ih =>
    intro w B h hn hl
    obtain ⟨s, hs⟩ := Option.isSome_iff_exists.1 (hl p List.mem_cons_self)
    rw [List.foldlM_cons, Proxy.destroy_ok (h.object hs) (h.holds hs), ok_bind]
    refine ih (B := B.remove p) (h.destroy hs w.cm) (List.nodup_cons.1 hn).2 fun q hq => ?_
    have hne : q ≠ p := fun e => (List.nodup_cons.1 hn).1 (e ▸ hq)
    rw [Board.remove_sessions, Heap.get_free, if_neg hne]
    exact hl q (List.mem_cons_of_mem p hq)

theorem dropAll_refines (h : Represents w B) :
    ∃ w', ProxyManager.dropAll w = .ok w' ∧ Represents w' B.closeAll ∧ w'.cm.processors = [] := by
  obtain ⟨w', hok, hshow, hcm, hpm, hlog⟩ := destroyEach w.cm.processors
    (w := { w with cm := ⟨[], true, false⟩ }) (h.toShows.of_heaps rfl rfl rfl rfl) h.nodup
    (fun p hp => (h.processors p).1 hp)
  rw [Heap.foldl_free_eq_clear fun p hp => (h.processors p).2 hp] at hshow
  refine ⟨{ w' with cm := ⟨[], false, false⟩, pm := ⟨[], false⟩ }, ?_, ?_, rfl⟩
  · unfold ProxyManager.dropAll ConnectionManager.dropAll lockMutex
    simp only [h.mutex, Bool.false_eq_true, ↓reduceIte, ok_bind]
    rw [hok]
    simp [unlockMutex, lockIds, unlockIds, hcm, hpm, h.lock, setIdToConn]
  · exact
      { toShows := hshow.of_heaps rfl rfl rfl rfl
        mutex := rfl
        lock := rfl
        running := rfl
        nodup := List.nodup_nil
        processors := fun p => by simp [Board.closeAll]
        stopped := fun _ p => rfl
        index := rfl
        log := hlog.trans h.log }

/-! ## Accepting -/

/-- The state in which `p` is the proxy of an accepted connection. -/
def World.accepted (w : World) (connection : ClientConnection) : World :=
  { w with
    bevs := w.bevs.alloc (.new (.proxy w.proxies.next) .up)
    proxies := w.proxies.alloc ((Session.new connection w.bevs.next).object w.proxies.next) }

theorem accepted_shows (h : Represents w B) (connection : ClientConnection) :
    Shows (w.accepted connection) { B with
      sessions := B.sessions.alloc (.new connection B.nextSock), nextSock := B.nextSock + 1 } := by
  refine h.add rfl ?_ rfl (fun q => ?_) fun b => Heap.get_alloc _ _ _
  · simp [World.accepted, h.nextBev]
  · refine (Heap.get_alloc _ _ _).trans ?_
    split
    · rename_i e; rw [e]
    · rfl

theorem onClientConnect_eq (h : Represents w B) (connection : ClientConnection) :
    onClientConnect connection w =
      release w.proxies.next { w.accepted connection with
        cm := { w.cm with processors :=
          if w.cm.running then w.cm.processors.insert w.proxies.next else w.cm.processors } } := by
  unfold onClientConnect ProxyManager.addProxy
  refine Eq.trans (congrArg (· >>= _) (congrArg (· >>= _) (proxy_ok (Heap.get_alloc_next _ _)))) ?_
  simp only [ok_bind, World.setProxy, Heap.set_alloc]
  exact congrArg (· >>= _)
    (ConnectionManager.addConnection_ok (w := w.accepted connection) h.mutex _)

theorem accept_refines (h : Represents w B) (connection : ClientConnection) :
    ∃ w', onClientConnect connection w = .ok w' ∧ Represents w' (B.join connection) := by
  have hshow := accepted_shows h connection
  have hlive : ∀ q ∈ w.cm.processors, q ≠ w.proxies.next := fun q hq => by
    obtain ⟨s, hs⟩ := h.session_of_mem hq
    exact Nat.ne_of_lt (Heap.lt_next (h.object hs))
  have hnew : (B.sessions.alloc (.new connection B.nextSock)).get w.proxies.next =
      some (.new connection B.nextSock) := by rw [h.nextProxy, Heap.get_alloc_next]
  rw [onClientConnect_eq h, release]
  rcases hr : w.cm.running with _ | _
  · have hB : B.running = false := by rw [← h.running, hr]
    have hfresh : w.proxies.next ∉ w.cm.processors := fun hm => hlive _ hm rfl
    have hh := hshow.holds hnew
    refine ⟨_, (if_neg hfresh).trans
      (Proxy.destroy_ok (hshow.object hnew) ⟨hh.fwd, hh.bev, hh.ne⟩), ?_⟩
    rw [Board.join_stopped hB]
    exact
      { toShows := (hshow.destroy hnew w.cm).of_heaps rfl rfl (by simp [h.nextProxy]) rfl
        mutex := h.mutex
        lock := h.lock
        running := h.running
        nodup := h.nodup
        processors := fun q => by rw [Heap.get_alloc_free]; exact h.processors q
        stopped := fun _ q => by rw [Heap.get_alloc_free]; exact h.stopped hB q
        index := h.index
        log := h.log }
  · have hB : B.running = true := by rw [← h.running, hr]
    refine ⟨_, if_pos List.mem_insert_self, ?_⟩
    rw [Board.join_running hB]
    exact
      { toShows := hshow.of_heaps rfl rfl rfl rfl
        mutex := h.mutex
        lock := h.lock
        running := h.running
        nodup := h.nodup.insert
        processors := fun q => by
          simp only [↓reduceIte, List.mem_insert_iff, h.processors, Heap.get_alloc, h.nextProxy]
          by_cases hq : q = B.sessions.next <;> simp [hq]
        stopped := fun hf => absurd (hf.symm.trans hB) Bool.false_ne_true
        index := h.index
        log := h.log }

/-! ## Every event -/

theorem read_refines {b : BevPtr} {chunk : List UInt8} (h : Represents w B)
    (ho : offers w (.read b chunk) = true) :
    ∃ w', handle E w (.read b chunk) = .ok w' ∧
      Represents w' (B.step E.config (label E w (.read b chunk))) := by
  obtain ⟨X, hX, hr⟩ := (Option.any_eq_true _ _).1 ho
  obtain ⟨p, s, hs, ⟨rfl, rfl⟩ | ⟨hb, rfl⟩⟩ := h.socket hX
  · have hne : chunk ≠ [] := by
      rintro rfl
      simp [Bufferevent.canRead] at hr
    simp only [handle, label, hX, orFault_some, ok_bind, Option.map_some, Session.clientBev_ctx,
      Board.step, Board.onClient_some hs]
    exact client_read h hs hne
  · simp only [handle, label, hX, orFault_some, ok_bind, Option.map_some, Session.backendBev_ctx,
      Board.step, Board.onClient_some hs]
    exact backend_read h hs hb chunk

theorem write_refines {b : BevPtr} {n : Nat} (h : Represents w B)
    (ho : offers w (.write b n) = true) :
    ∃ w', handle E w (.write b n) = .ok w' ∧
      Represents w' (B.step E.config (label E w (.write b n))) := by
  obtain ⟨X, hX, hr⟩ := (Option.any_eq_true _ _).1 ho
  obtain ⟨p, s, hs, ⟨rfl, rfl⟩ | ⟨hb, rfl⟩⟩ := h.socket hX
  · simp only [handle, label, hX, orFault_some, ok_bind, Option.map_some, Session.clientBev_ctx,
      Board.step, Board.onClient_some hs]
    exact ⟨_, rfl, client_write h hs n⟩
  · simp only [handle, label, hX, orFault_some, ok_bind, Option.map_some, Session.backendBev_ctx,
      Board.step, Board.onClient_some hs]
    exact ⟨_, rfl, backend_write h hs hb n hr⟩

/-- Flags that report neither change nothing. -/
theorem event_idle {b : BevPtr} {events : BitVec 16} {X : Bufferevent Ctx}
    {cp : ConnectionProcessor} (hX : w.bevs.get b = some X) (hcp : w.processor X.ctx = .ok cp)
    (hn : isConnected events = false) (hc : isClosed events = false) :
    handle E w (.event b events) = .ok w := by
  have hrep : X.report events = X := by simp [Bufferevent.report, hn, hc]
  simp only [handle, hX, orFault_some, ok_bind, hrep, Heap.set_get hX]
  unfold ConnectionProcessor.onEvent
  simp only [hcp, ok_bind, hn, hc, Bool.false_eq_true, ↓reduceIte]

theorem event_refines {b : BevPtr} {events : BitVec 16} (h : Represents w B)
    (ho : offers w (.event b events) = true) :
    ∃ w', handle E w (.event b events) = .ok w' ∧
      Represents w' (B.step E.config (label E w (.event b events))) := by
  obtain ⟨X, hX, hr⟩ := (Option.any_eq_true _ _).1 ho
  obtain ⟨p, s, hs, ⟨rfl, rfl⟩ | ⟨hb, rfl⟩⟩ := h.socket hX
  · -- a client's socket has been connected from the start
    have hn : isConnected events = false := by
      simpa [Bufferevent.canReport, Session.clientBev] using hr
    rcases hc : isClosed events with _ | _
    · refine ⟨w, event_idle hX (processor_proxy (h.object hs)) hn hc, ?_⟩
      simpa [label, hX, hc, Board.step] using h
    · simp only [handle, label, hX, orFault_some, ok_bind, Option.map_some, Session.clientBev_ctx,
        hc, ↓reduceIte, Board.step, Board.onClient_some hs]
      exact client_closed h hs hn hc _
  · rcases hn : isConnected events with _ | _
    · rcases hc : isClosed events with _ | _
      · obtain ⟨f, hf, -⟩ := s.fwd_of_peer p hb
        refine ⟨w, event_idle hX (processor_forwarder (h.object hs) hf) hn hc, ?_⟩
        simpa [label, hX, hn, hc, Board.step] using h
      · simp only [handle, label, hX, orFault_some, ok_bind, Option.map_some,
          Session.backendBev_ctx, hn, hc, Bool.false_eq_true, ↓reduceIte, Board.step,
          Board.onClient_some hs]
        exact backend_closed h hs hb hn hc
    · simp only [handle, label, hX, orFault_some, ok_bind, Option.map_some, Session.backendBev_ctx,
        hn, ↓reduceIte, Board.step, Board.onClient_some hs]
      exact backend_connected h hs hb hn hr

/-- A control message only takes clients off. -/
theorem control_refines (h : Represents w B) (msg : ControlMessage) :
    ∃ w', handle E w (.control msg) = .ok w' ∧
      Represents w' (B.step E.config (label E w (.control msg))) ∧
      w'.cm.processors.Sublist w.cm.processors := by
  simp only [handle, label, Controller.onControlMessage]
  rcases msg.type with _ | _ | _
  · exact dropById_refines h msg.id
  · obtain ⟨w', hok, hr, hnil⟩ := dropAll_refines h
    exact ⟨w', hok, hr, hnil ▸ List.nil_sublist _⟩
  · exact ⟨w, rfl, h, List.Sublist.refl _⟩

/-- **The program is the switchboard**: an event that libevent can report is handled without a
fault, and the program then represents the board after the signal that the event means. -/
theorem handle_refines {e : Event} (h : Represents w B) (ho : offers w e = true) :
    ∃ w', handle E w e = .ok w' ∧ Represents w' (B.step E.config (label E w e)) := by
  cases e with
  | accept connection => exact accept_refines h connection
  | read b chunk => exact read_refines h ho
  | write b n => exact write_refines h ho
  | event b events => exact event_refines h ho
  | control msg =>
    obtain ⟨w', hok, hr, -⟩ := control_refines (E := E) h msg
    exact ⟨w', hok, hr⟩

theorem next_refines {e : Event} (h : Represents w B) (hn : next E w e = some w') :
    Represents w' (B.step E.config (label E w e)) := by
  obtain ⟨ho, hok⟩ := next_eq.1 hn
  obtain ⟨w₁, hok₁, hr⟩ := handle_refines (E := E) h ho
  obtain rfl := Except.ok.inj (hok.symm.trans hok₁)
  exact hr

/-- **Every reachable state represents a board** that has every property the empty board has and
all signals keep. -/
theorem reachable_represents (I : Board → Prop) (h0 : I .init)
    (hs : ∀ B sig, I B → I (B.step E.config sig)) (h : Reachable E w) :
    ∃ B, Represents w B ∧ I B := by
  refine h.invariant (P := fun w => ∃ B, Represents w B ∧ I B) ⟨.init, represents_init, h0⟩ ?_
  rintro w e w' - ⟨B, hB, hI⟩ hn
  exact ⟨_, next_refines hB hn, hs B _ hI⟩

theorem reachable_board (h : Reachable E w) : ∃ B, Represents w B := by
  obtain ⟨B, hB, -⟩ := reachable_represents (fun _ => True) trivial (fun _ _ _ => trivial) h
  exact ⟨B, hB⟩

end TcpProxy
