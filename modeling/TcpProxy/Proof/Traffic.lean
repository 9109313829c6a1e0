import TcpProxy.Proof.Callbacks
import TcpProxy.Proof.Shows

/-!
# What the sockets of a client do

Each callback of a client's bufferevent (`client_read`, `client_closed`) and of its forwarder's
(`backend_read`, `backend_connected`, `backend_closed`), run in a state that represents a board on
which the client is in the session `s`: it ends without a fault, in a state that represents the
board one signal later.
-/

namespace TcpProxy

open Libevent World

variable {E : Env} {w w' : World} {B B' : Board} {p : ProxyPtr} {s t : Session}

/-! ## Going on and leaving -/

namespace Represents

theorem put (h : Represents w B) (hs : B.sessions.get p = some s) (hsock : t.sock = s.sock)
    (hpeer : t.peer = s.peer) (hnext : w'.bevs.next = w.bevs.next)
    (hprox : w'.proxies = w.proxies.set p (t.object p))
    (hclient : w'.bevs.get t.sock = some (t.clientBev p))
    (hback : ∀ b, t.peer = some b → w'.bevs.get b = some (t.backendBev p))
    (hrest : ∀ b, ¬ t.Uses b → w'.bevs.get b = w.bevs.get b)
    (hcm : w'.cm = w.cm) (hpm : w'.pm = w.pm) (hlog : w'.log = w.log) :
    Represents w' (B.put p t) := by
  refine h.of_shows (h.replace hs hsock (.inl hpeer) rfl (by rw [hnext, h.nextBev]; rfl)
    (by rw [hprox, Heap.next_set]) (fun q => ?_) hclient hback hrest) hcm (by rw [hpm, h.lock]) rfl
    (fun q => ?_) (by rw [hpm, h.index]; rfl) (by rw [hlog, h.log]; rfl)
  · rw [hprox, Heap.get_set, h.object hs]; rfl
  · rw [Board.put_sessions, Heap.get_set]
    split
    · rename_i e; rw [e, hs]; rfl
    · rfl

theorem put_both {b : BevPtr} (h : Represents w B) (hs : B.sessions.get p = some s)
    (hb : s.peer = some b) (hsock : t.sock = s.sock) (hpeer : t.peer = s.peer)
    (hbevs : w'.bevs = (w.bevs.set s.sock (t.clientBev p)).set b (t.backendBev p))
    (hprox : w'.proxies = w.proxies.set p (t.object p))
    (hcm : w'.cm = w.cm) (hpm : w'.pm = w.pm) (hlog : w'.log = w.log) :
    Represents w' (B.put p t) := by
  have hne : s.sock ≠ b := fun e => h.peer_ne_sock hs (e ▸ hb)
  have hcl := Heap.get_set_self (h.client p s hs) (t.clientBev p)
  refine h.put hs hsock hpeer (by rw [hbevs]; rfl) hprox ?_ (fun c hc => ?_) (fun c hc => ?_)
    hcm hpm hlog
  · rw [hbevs, hsock, Heap.get_set_ne hne, hcl]
  · obtain rfl : b = c := Option.some.inj (hb.symm.trans (hpeer.symm.trans hc))
    rw [hbevs]
    refine Heap.get_set_self ((Heap.get_set_ne hne.symm _).trans (h.backend p s _ hs hb)) _
  · rw [hbevs, Heap.get_set_ne, Heap.get_set_ne]
    · exact fun e => hc (.inl (e.trans hsock.symm))
    · exact fun e => hc (.inr (by rw [hpeer, hb, e]))

/-- The client `p` leaves: `w'` is `w` up to `p`'s objects, and `px` is `p`'s proxy in it. -/
theorem leave {px : Proxy} (h : Represents w B) (hs : B.sessions.get p = some s)
    (hB : B'.sessions = B.sessions.free p) (hrun : B'.running = B.running)
    (hnb : w'.bevs.next = B'.nextSock) (hnp : w'.proxies.next = w.proxies.next)
    (hprox : ∀ q, q ≠ p → w'.proxies.get q = w.proxies.get q)
    (hgone : ∀ b, s.Uses b → (w'.drop p px).bevs.get b = none)
    (hrest : ∀ b, ¬ s.Uses b → (w'.drop p px).bevs.get b = w.bevs.get b)
    (hcm : w'.cm = w.cm) (hlock : w'.pm.lock = false)
    (hindex : unfile w'.pm.idToConn px.id = B'.index) (hlog : w'.log = B'.log) :
    Represents (w'.leave p px) B' := by
  refine h.of_remove (h.remove hs hB ?_ ?_ (fun q => ?_) hgone hrest)
    (by rw [← hcm]; rfl) hlock hB hrun hindex hlog
  · simpa [World.leave, World.drop] using hnb
  · simpa [World.leave, World.drop] using hnp
  · change (w'.proxies.free p).get q = _
    rw [Heap.get_free]
    split
    · rfl
    · exact hprox q ‹_›

end Represents

theorem World.drop_get (w : World) (p : ProxyPtr) (px : Proxy) (b : BevPtr) :
    (w.drop p px).bevs.get b =
      if px.bev = some b then none
      else if px.fwd.bind (·.bev) = some b then none else w.bevs.get b := by
  change ((w.bevs.freeOpt _).freeOpt _).get b = _
  rw [Heap.get_freeOpt, Heap.get_freeOpt]

section
variable {px : Proxy} {b : BevPtr}

theorem World.drop_uses (w : World) (px : Proxy) (hbev : px.bev = some s.sock)
    (hfwd : px.fwd = s.fwd p) (hu : s.Uses b) : (w.drop p px).bevs.get b = none := by
  rw [World.drop_get, hfwd, Session.fwd_bev, hbev]
  rcases hu with rfl | hb
  · exact if_pos rfl
  · rw [if_pos hb, ite_self]

theorem World.drop_other (w : World) (px : Proxy) (hbev : px.bev = some s.sock)
    (hfwd : px.fwd = s.fwd p) (hu : ¬ s.Uses b) : (w.drop p px).bevs.get b = w.bevs.get b := by
  have hsock : ¬ some s.sock = some b := fun e => hu (.inl (Option.some.inj e).symm)
  rw [World.drop_get, hfwd, Session.fwd_bev, hbev, if_neg hsock, if_neg fun e => hu (.inr e)]

theorem Shows.destroy (h : Shows w B) (hs : B.sessions.get p = some s) (m : ConnectionManager) :
    Shows { w.drop p (s.object p) with cm := m } (B.remove p) := by
  refine h.remove hs rfl ?_ rfl (fun q => Heap.get_free _ _ _) (fun b hb => ?_) (fun b hb => ?_)
  · simp [World.drop, h.nextBev]
  · exact w.drop_uses (s.object p) rfl rfl hb
  · exact w.drop_other (s.object p) rfl rfl hb

theorem Represents.drop (h : Represents w B) (hs : B.sessions.get p = some s) :
    Represents (w.drop p (s.object p)) (B.remove p) :=
  h.of_remove (h.destroy hs _) rfl h.lock rfl rfl h.index h.log

/-- The client `p` leaves at an event of its socket `b`; `px` is its proxy then. -/
theorem Represents.leave_set {X : Bufferevent Ctx} (h : Represents w B)
    (hs : B.sessions.get p = some s) (hu : s.Uses b) (hbevs : w'.bevs = w.bevs.set b X)
    (hnext : w'.proxies.next = w.proxies.next)
    (hprox : ∀ q, q ≠ p → w'.proxies.get q = w.proxies.get q) (hcm : w'.cm = w.cm)
    (hpm : w'.pm = w.pm) (hlog : w'.log = w.log) (hbev : px.bev = some s.sock)
    (hfwd : px.fwd = s.fwd p) (hid : px.id = s.id) : Represents (w'.leave p px) (B.leave p s) := by
  refine h.leave hs rfl rfl (by rw [hbevs]; exact h.nextBev) hnext hprox
    (fun c hc => w'.drop_uses px hbev hfwd hc) (fun c hc => ?_) hcm (by rw [hpm]; exact h.lock)
    (by rw [hpm, hid, h.index]; rfl) (hlog.trans h.log)
  rw [w'.drop_other px hbev hfwd hc, hbevs]
  exact Heap.get_set_ne (fun e : c = b => hc (e ▸ hu)) X

end

theorem World.Holds.set {px : Proxy} (hh : w.Holds px) (b : BevPtr) (X : Bufferevent Ctx) :
    World.Holds { w with bevs := w.bevs.set b X } px := by
  have hsome : ∀ c, (w.bevs.get c).isSome → ((w.bevs.set b X).get c).isSome := fun c hc => by
    rw [Heap.get_set]
    split
    · rename_i e; subst e; simpa using hc
    · exact hc
  exact ⟨fun c hc => hsome c (hh.fwd c hc), fun c hc => hsome c (hh.bev c hc), hh.ne⟩

/-! ## The client's socket -/

theorem client_closed (h : Represents w B) (hs : B.sessions.get p = some s) {events : BitVec 16}
    (hn : isConnected events = false) (hc : isClosed events = true) (X : Bufferevent Ctx) :
    ∃ w', ConnectionProcessor.onEvent E (.proxy p) events { w with bevs := w.bevs.set s.sock X } =
        .ok w' ∧ Represents w' (B.leave p s) := by
  have hp : { w with bevs := w.bevs.set s.sock X }.proxies.get p = some (s.object p) := h.object hs
  have hd := h.canDrop hs
  unfold ConnectionProcessor.onEvent
  rw [processor_proxy hp]
  simp only [ok_bind, hn, hc, Session.object_connecting, Bool.false_eq_true, ↓reduceIte,
    ConnectionProcessor.close]
  exact ⟨_, Proxy.close_ok ⟨hd.mutex, hd.running, hd.nodup⟩ hp ((h.holds hs).set _ _) rfl,
    h.leave_set hs (.inl rfl) rfl rfl (fun _ _ => rfl) rfl rfl rfl rfl rfl rfl⟩

theorem client_write (h : Represents w B) (hs : B.sessions.get p = some s) (n : Nat) :
    Represents { w with bevs := w.bevs.set s.sock ((s.clientBev p).write n) }
      (B.put p (s.toClient n)) := by
  have hsame := s.toClient_object p n
  have hsock := Session.sock_of_object hsame
  have hpeer := Session.peer_of_object hsame
  refine h.put hs hsock hpeer rfl ?_ ?_ (fun b hb => ?_) (fun b hb => ?_) rfl rfl rfl
  · rw [hsame, Heap.set_get (h.object hs)]
  · rw [hsock, s.toClient_clientBev]
    exact Heap.get_set_self (h.client p s hs) _
  · rw [hpeer] at hb
    rw [s.toClient_backendBev]
    have hne : b ≠ s.sock := fun e => h.peer_ne_sock hs (e ▸ hb)
    exact (Heap.get_set_ne hne _).trans (h.backend p s b hs hb)
  · exact Heap.get_set_ne (fun e => hb (.inl (e.trans hsock.symm))) _

theorem greeting_read {buf chunk : List UInt8} {short : buf.length < 12} (h : Represents w B)
    (hs : B.sessions.get p = some s) (hst : s.stage = .greeting buf short) (hne : chunk ≠ [])
    (hl : (buf ++ chunk).length < 12) :
    ∃ w', Proxy.parseFirst E p s.sock
        { w with bevs := w.bevs.set s.sock ((s.clientBev p).deliver chunk) } = .ok w' ∧
      Represents w' (B.put p { s with stage := .greeting (buf ++ chunk) hl }) := by
  have hX := Heap.get_set_self (h.client p s hs) ((s.clientBev p).deliver chunk)
  have hbev : (s.clientBev p).deliver chunk =
      Session.clientBev { s with stage := .greeting (buf ++ chunk) hl } p := by
    simp [Session.clientBev, Bufferevent.deliver, Session.parked, Session.fromClient, Session.down,
      hst]
  refine ⟨_, Proxy.parseFirst_short (h.object hs) hX (by rw [hbev]; exact hl), ?_⟩
  refine h.put hs rfl (by simp [Session.peer, hst]) rfl ?_ ?_ (fun b hb => by cases hb)
    (fun b hb => ?_) rfl rfl rfl
  · simp [World.setProxy, Session.object, Session.fwd, Session.state, Session.lastInput, Session.id,
      hst, hne]
  · exact hX.trans (congrArg some hbev)
  · exact Heap.get_set_ne (fun e => hb (.inl e)) _

/-- The proxy of the client `p`, in the session `s`, that remembers its input. -/
def Session.heard (s : Session) (p : ProxyPtr) : Proxy :=
  { s.object p with lastInput := some s.sock }

/-- The state in which the client `p`, in the session `s`, has its bytes in `X`. -/
def World.heard (w : World) (p : ProxyPtr) (s : Session) (X : Bufferevent Ctx) : World where
  bevs := w.bevs.set s.sock X
  proxies := w.proxies.set p (s.heard p)
  cm := w.cm
  pm := w.pm
  log := w.log

section
variable {buf : List UInt8} {short : buf.length < 12} {id : Int} {host : Config.Host}

theorem Represents.dial (h : Represents w B) (hs : B.sessions.get p = some s)
    (hst : s.stage = .greeting buf short) {bs : List UInt8}
    (ht : t = s.dial id host B.nextSock bs) :
    Represents ((w.heard p s (t.clientBev p)).dial p (s.heard p) id host .connecting .CONNECTING)
      ((B.register p id host).put p t) := by
  have hsock : t.sock = s.sock := by rw [ht]; rfl
  have htpeer : t.peer = some w.bevs.next := by rw [ht, h.nextBev]; rfl
  have hlt : s.sock ≠ w.bevs.next := Nat.ne_of_lt (Heap.lt_next (h.client p s hs))
  have hX := Heap.get_set_self (h.client p s hs) (t.clientBev p)
  refine h.of_shows (h.replace hs hsock (.inr ⟨by simp [Session.peer, hst], htpeer⟩) rfl ?_
    rfl (fun q => ?_) ?_ (fun b hb => ?_) (fun b hb => ?_)) rfl rfl rfl (fun q => ?_) ?_ ?_
  · simp [World.dial, World.heard, h.nextBev]
  · change ((w.proxies.set p _).set p _).get q = _
    rw [Heap.set_set, Heap.get_set, h.object hs]
    subst ht
    simp [Session.heard, World.heard, Session.dial, Session.object, Session.fwd, Session.state,
      Session.lastInput, Session.id, h.nextBev]
  · change ((w.bevs.set s.sock _).alloc _).get t.sock = _
    rw [hsock]
    exact Heap.get_alloc_of hX _
  · obtain rfl := Option.some.inj (htpeer.symm.trans hb)
    refine (Heap.get_alloc_next (w.bevs.set s.sock _) _).trans ?_
    subst ht
    rfl
  · refine (Heap.get_alloc_ne (h := w.bevs.set s.sock _) (fun e => hb (.inr ?_)) _).trans
      (Heap.get_set_ne (fun e => hb (.inl (e.trans hsock.symm))) _)
    rw [htpeer, e]; rfl
  · rw [Board.put_sessions, Board.register_sessions, Heap.get_set]
    split
    · rename_i e; rw [e, hs]; rfl
    · rfl
  · simp [World.dial, World.heard, h.index]
  · simp [World.dial, World.heard, h.log]

/-- The client `p` leaves because the connect was not started. -/
theorem Represents.undial (h : Represents w B) (hs : B.sessions.get p = some s)
    (hst : s.stage = .greeting buf short) (X : Bufferevent Ctx) (bs : List UInt8) :
    ∃ w', Proxy.close p ((w.heard p s X).dial p (s.heard p) id host .idle .BEGIN) = .ok w' ∧
      Represents w' ((B.register p id host).leave p (s.dial id host B.nextSock bs)) := by
  have hd := h.canDrop hs
  have hcl := h.client p s hs
  have hlt : s.sock ≠ w.bevs.next := Nat.ne_of_lt (Heap.lt_next hcl)
  have hsock : ((w.bevs.set s.sock X).alloc (.new (.forwarder p) .idle)).get s.sock = some X :=
    Heap.get_alloc_of (Heap.get_set_self hcl X) _
  refine ⟨_, Proxy.close_ok ⟨hd.mutex, hd.running, hd.nodup⟩
    (Heap.get_set_self (Heap.get_set_self (h.object hs) _) _) ?_ rfl, ?_⟩
  · refine ⟨fun b hb => ?_, fun b hb => ?_, fun b hb hb' => ?_⟩
    · obtain rfl := Option.some.inj hb
      exact Option.isSome_iff_exists.2 ⟨_, Heap.get_alloc_next (w.bevs.set s.sock X) _⟩
    · obtain rfl := Option.some.inj hb
      exact Option.isSome_iff_exists.2 ⟨X, hsock⟩
    · exact hlt (Option.some.inj (hb.trans hb'.symm))
  · refine h.leave hs rfl rfl ?_ rfl (fun q hq => ?_) (fun b hb => ?_) (fun b hb => ?_) rfl rfl
      ?_ ?_
    · simp [World.dial, World.heard, h.nextBev]
    · exact (Heap.get_set_ne hq _).trans (Heap.get_set_ne hq _)
    · rcases hb with rfl | hb
      · exact (World.drop_get _ _ _ _).trans (if_pos rfl)
      · simp [Session.peer, hst] at hb
    · have hne : ¬ some s.sock = some b := fun e => hb (.inl (Option.some.inj e).symm)
      refine (World.drop_get _ _ _ _).trans ((if_neg hne).trans ?_)
      by_cases hb' : b = w.bevs.next
      · subst hb'
        rw [Heap.get_next]
        exact if_pos rfl
      · refine (if_neg fun e => hb' (Option.some.inj e).symm).trans ?_
        exact (Heap.get_alloc_ne (h := w.bevs.set s.sock X) hb' _).trans
          (Heap.get_set_ne (fun e => hb (.inl e)) X)
    · simp [World.dial, World.heard, h.index, Session.dial, Session.id]
    · simp [World.dial, World.heard, h.log]

/-- The client's header is complete: the client is turned away, or is given a backend. -/
theorem admitted_read {chunk : List UInt8} (h : Represents w B)
    (hs : B.sessions.get p = some s) (hst : s.stage = .greeting buf short)
    (hl : 12 ≤ (buf ++ chunk).length) :
    ∃ w', Proxy.parseFirst E p s.sock
        { w with bevs := w.bevs.set s.sock ((s.clientBev p).deliver chunk) } = .ok w' ∧
      Represents w'
        (Board.dispatch E.config (decide (E.connectRc w.bevs.next = 0)) B p s (buf ++ chunk)) := by
  have hd := h.canDrop hs
  have hX := Heap.get_set_self (h.client p s hs) ((s.clientBev p).deliver chunk)
  have hinput : ((s.clientBev p).deliver chunk).input = buf ++ chunk := by
    simp [Bufferevent.deliver, Session.clientBev, Session.parked, hst]
  have hp := Heap.get_set_self (h.object hs) (s.heard p)
  have hparse : Proxy.parseFirst E p s.sock
      { w with bevs := w.bevs.set s.sock ((s.clientBev p).deliver chunk) } = _ :=
    Proxy.parseFirst_long (h.object hs) hX (by rw [hinput]; exact hl)
  rw [hparse, hinput]
  unfold Board.dispatch
  rcases hr : route E.config (buf ++ chunk) with _ | ⟨id, host⟩
  · have hh := (h.holds hs).set s.sock ((s.clientBev p).deliver chunk)
    exact ⟨_, Proxy.close_ok ⟨hd.mutex, hd.running, hd.nodup⟩ hp ⟨hh.fwd, hh.bev, hh.ne⟩ rfl,
      h.leave_set hs (.inl rfl) rfl rfl (fun q hq => Heap.get_set_ne hq _) rfl rfl rfl rfl rfl rfl⟩
  · have hfwd : (s.heard p).fwd = none := by simp [Session.heard, Session.fwd, hst]
    have hto : Proxy.connectTo E p id host (w.heard p s ((s.clientBev p).deliver chunk)) =
        if E.connectRc w.bevs.next = 0 then
          .ok ((w.heard p s ((s.clientBev p).deliver chunk)).dial p (s.heard p) id host .connecting
            .CONNECTING)
        else Proxy.close p ((w.heard p s ((s.clientBev p).deliver chunk)).dial p (s.heard p) id host
          .idle (s.heard p).state) :=
      Proxy.connectTo_ok (w := w.heard p s ((s.clientBev p).deliver chunk)) hp h.lock rfl hfwd id
        host
    let t := s.dial id host B.nextSock (buf ++ chunk)
    change ∃ w',
      Proxy.connectTo E p id host (w.heard p s ((s.clientBev p).deliver chunk)) = .ok w' ∧
      Represents w' (if decide (E.connectRc w.bevs.next = 0) then (B.register p id host).put p t
        else (B.register p id host).leave p t)
    rw [hto]
    by_cases hrc : E.connectRc w.bevs.next = 0
    · rw [if_pos hrc, if_pos (decide_eq_true hrc)]
      have hbev : (s.clientBev p).deliver chunk = t.clientBev p := by
        simp [t, Session.dial, Session.clientBev, Bufferevent.deliver, Session.parked,
          Session.fromClient, Session.down, hst]
      rw [hbev]
      exact ⟨_, rfl, h.dial hs hst rfl⟩
    · have hstate : (s.heard p).state = .BEGIN := by simp [Session.heard, Session.state, hst]
      rw [if_neg hrc, if_neg (by rw [decide_eq_false hrc]; exact Bool.false_ne_true), hstate]
      exact h.undial hs hst _ _

end

/-- The client sends while the connect is in progress: its bytes wait. -/
theorem dialing_read {id : Int} {host : Config.Host} {peer : BevPtr} {failed : Bool}
    {parked : List UInt8} {down : Outbox UInt8} (h : Represents w B)
    (hs : B.sessions.get p = some s) (hst : s.stage = .dialing id host peer failed parked down)
    (chunk : List UInt8) :
    Represents { w with bevs := w.bevs.set s.sock ((s.clientBev p).deliver chunk) }
      (B.put p { s with stage := .dialing id host peer failed (parked ++ chunk) down }) := by
  have hb : s.peer = some peer := by simp [Session.peer, hst]
  have hback : s.backendBev p =
      Session.backendBev
        { s with stage := .dialing id host peer failed (parked ++ chunk) down } p := by
    simp [Session.backendBev, Session.link, Session.down, Session.up, hst]
  have hne : s.sock ≠ peer := fun e => h.peer_ne_sock hs (e ▸ hb)
  refine h.put_both hs hb rfl hb.symm ?_ ?_ rfl rfl rfl
  · rw [← hback, Heap.set_comm _ _ _ hne, Heap.set_get (h.backend p s _ hs hb)]
    simp [Session.clientBev, Bufferevent.deliver, Session.parked, Session.fromClient, Session.down,
      hst]
  · rw [Session.object_dialing p hst, Heap.set_get (h.object hs)]

/-- The client sends while its backend is connected: its bytes go there. -/
theorem relaying_read {id : Int} {host : Config.Host} {peer : BevPtr} {up down : Outbox UInt8}
    (h : Represents w B) (hs : B.sessions.get p = some s)
    (hst : s.stage = .relaying id host peer up down) (chunk : List UInt8) :
    ∃ w', Proxy.dataRecieved E p s.sock
        { w with bevs := w.bevs.set s.sock ((s.clientBev p).deliver chunk) } = .ok w' ∧
      Represents w' (B.put p { s with stage := .relaying id host peer (up.push chunk) down }) := by
  have hb : s.peer = some peer := by simp [Session.peer, hst]
  have hne : peer ≠ s.sock := fun e => h.peer_ne_sock hs (e ▸ hb)
  obtain ⟨f, hf, hfb, -⟩ := s.fwd_of_peer p hb
  refine ⟨_, Proxy.dataRecieved_fwd (h.object hs) (by simp [Session.state, hst]) hf hfb
    (Heap.get_set_self (h.client p s hs) _) ((Heap.get_set_ne hne _).trans (h.backend p s _ hs hb))
    hne, h.put_both hs hb rfl hb.symm ?_ ?_ rfl rfl rfl⟩
  · change ((w.bevs.set s.sock _).set s.sock _).set peer _ = _
    rw [Heap.set_set]
    simp [Session.clientBev, Session.backendBev, Bufferevent.deliver, Session.parked,
      Session.fromClient, Session.down, Session.link, Session.up, hst]
  · rw [Session.object_relaying p hst]
    exact (Heap.set_get (h.object hs)).symm

theorem client_read (h : Represents w B) (hs : B.sessions.get p = some s) {chunk : List UInt8}
    (hne : chunk ≠ []) :
    ∃ w', ConnectionProcessor.readProxy E (.proxy p) s.sock
        { w with bevs := w.bevs.set s.sock ((s.clientBev p).deliver chunk) } = .ok w' ∧
      Represents w'
        (Board.fromClient E.config (decide (E.connectRc w.bevs.next = 0)) B p s chunk) := by
  have hp : { w with bevs := w.bevs.set s.sock ((s.clientBev p).deliver chunk) }.proxies.get p =
      some (s.object p) := h.object hs
  unfold ConnectionProcessor.readProxy Board.fromClient
  rcases hst : s.stage with ⟨buf, short⟩ | ⟨id, host, peer, failed, parked, down⟩ |
    ⟨id, host, peer, up, down⟩
  · have hstate : (s.object p).state = .BEGIN := by simp [Session.state, hst]
    simp only [Proxy.dataRecieved_begin hp hstate]
    split
    · exact greeting_read h hs hst hne ‹_›
    · exact admitted_read h hs hst (Nat.not_lt.1 ‹_›)
  · have hstate : (s.object p).state = .CONNECTING := by simp [Session.state, hst]
    exact ⟨_, Proxy.dataRecieved_connecting hp hstate, dialing_read h hs hst chunk⟩
  · exact relaying_read h hs hst chunk

/-! ## The socket towards the backend -/

/-- The backend closes, or its socket fails: before it has answered nothing follows. -/
theorem backend_closed {b : BevPtr} (h : Represents w B) (hs : B.sessions.get p = some s)
    (hb : s.peer = some b) {events : BitVec 16} (hn : isConnected events = false)
    (hc : isClosed events = true) :
    ∃ w', ConnectionProcessor.onEvent E (.forwarder p) events
        { w with bevs := w.bevs.set b ((s.backendBev p).report events) } = .ok w' ∧
      Represents w' (B.backendGone p s) := by
  have hd := h.canDrop hs
  have hp : { w with bevs := w.bevs.set b ((s.backendBev p).report events) }.proxies.get p =
      some (s.object p) := h.object hs
  obtain ⟨f, hf, -, hcon, hcl, -, hstate⟩ := s.fwd_of_peer p hb
  unfold ConnectionProcessor.onEvent
  rw [processor_forwarder hp hf]
  rcases hst : s.stage with ⟨buf, hl⟩ | ⟨id, host, peer, failed, parked, down⟩ |
    ⟨id, host, peer, up, down⟩
  · simp [Session.peer, hst] at hb
  · obtain rfl : peer = b := by simpa [Session.peer, hst] using hb
    simp only [Session.state, hst, decide_true] at hstate
    simp only [ok_bind, hn, hc, hcon, hstate, Bool.false_eq_true, ↓reduceIte,
      ConnectionProcessor.callConnectCb, orFault_some, Proxy.onConnected, Bool.not_false,
      Board.backendGone, hst]
    have hclient : s.clientBev p =
        { s with stage := .dialing id host peer true parked down }.clientBev p := by
      simp [Session.clientBev, Session.parked, Session.fromClient, Session.down, hst]
    refine ⟨_, rfl, h.put_both hs hb rfl (hb.symm ▸ rfl) ?_ ?_ rfl rfl rfl⟩
    · rw [← hclient, Heap.set_get (h.client p s hs)]
      simp [Session.backendBev, Session.link, Session.down, Session.up, Bufferevent.report, hn, hc,
        hst]
    · rw [Session.object_dialing p hst]
      exact (Heap.set_get (h.object hs)).symm
  · simp only [Session.state, hst, reduceCtorEq, decide_false] at hstate
    simp only [ok_bind, hn, hc, hstate, Bool.false_eq_true, ↓reduceIte, ConnectionProcessor.close,
      Board.backendGone, hst]
    exact ⟨_, Forwarder.close_ok ⟨hd.mutex, hd.running, hd.nodup⟩ hp ((h.holds hs).set _ _) rfl hf
      hcl, h.leave_set hs (.inr hb) rfl rfl (fun _ _ => rfl) rfl rfl rfl rfl rfl rfl⟩

/-- The backend accepts the connection: what is parked is sent. -/
theorem backend_connected {b : BevPtr} (h : Represents w B) (hs : B.sessions.get p = some s)
    (hb : s.peer = some b) {events : BitVec 16} (hn : isConnected events = true)
    (hr : (s.backendBev p).canReport events = true) :
    ∃ w', ConnectionProcessor.onEvent E (.forwarder p) events
        { w with bevs := w.bevs.set b ((s.backendBev p).report events) } = .ok w' ∧
      Represents w' (B.put p s.answered) := by
  have hne : s.sock ≠ b := fun e => h.peer_ne_sock hs (e ▸ hb)
  -- only a socket whose connect is in progress reports one
  have hlink : s.link = .connecting := by
    simpa [Bufferevent.canReport, hn, Session.backendBev] using hr
  obtain ⟨f, hf, hfb, hcon, -, -, -⟩ := s.fwd_of_peer p hb
  rcases hst : s.stage with ⟨buf, hl⟩ | ⟨id, host, peer, failed, parked, down⟩ |
    ⟨id, host, peer, up, down⟩
  · simp [Session.link, hst] at hlink
  · obtain rfl : peer = b := by simpa [Session.peer, hst] using hb
    refine ⟨_, ConnectionProcessor.onEvent_connected hn (h.object hs) hf hcon
      (by simp [Session.lastInput, hst]) hfb
      ((Heap.get_set_ne hne _).trans (h.client p s hs))
      (Heap.get_set_self (h.backend p s _ hs hb) _) hne.symm,
      h.put_both hs hb ?_ ?_ ?_ ?_ rfl rfl rfl⟩
    · simp [Session.answered, hst]
    · simp [Session.answered, Session.peer, hst]
    · change ((w.bevs.set peer _).set s.sock _).set peer _ = _
      rw [Heap.set_comm _ _ _ hne.symm, Heap.set_set]
      congr 1
      · simp [Session.clientBev, Session.answered, Session.parked, Session.fromClient, Session.down,
          Outbox.empty, Outbox.all, Outbox.push, hst]
      · simp [Session.backendBev, Session.clientBev, Session.parked, Session.answered, Session.link,
          Session.down, Session.up, Bufferevent.report, hn, hst]
    · change w.proxies.set p _ = w.proxies.set p _
      congr 1
      simp only [Session.fwd, hst, Option.some.injEq] at hf
      subst hf
      simp [Session.object, Session.answered, Session.fwd, Session.state, Session.lastInput,
        Session.id, hst]
  · simp [Session.link, hst] at hlink

theorem backend_read {b : BevPtr} (h : Represents w B) (hs : B.sessions.get p = some s)
    (hb : s.peer = some b) (chunk : List UInt8) :
    ∃ w', ConnectionProcessor.readProxy E (.forwarder p) b
        { w with bevs := w.bevs.set b ((s.backendBev p).deliver chunk) } = .ok w' ∧
      Represents w' (B.put p (s.fromBackend chunk)) := by
  have hne : s.sock ≠ b := fun e => h.peer_ne_sock hs (e ▸ hb)
  obtain ⟨f, hf, hfb, -, -, hd, -⟩ := s.fwd_of_peer p hb
  have hsame := s.fromBackend_object p chunk
  have hsome : s.peer.isSome := by rw [hb]; rfl
  refine ⟨_, Forwarder.dataRecieved_ok (h.object hs) hf hd rfl
    (Heap.get_set_self (h.backend p s _ hs hb) _) ((Heap.get_set_ne hne _).trans (h.client p s hs))
    hne, h.put_both hs hb (Session.sock_of_object hsame) (Session.peer_of_object hsame) ?_ ?_
      rfl rfl rfl⟩
  · change ((w.bevs.set b _).set b _).set s.sock _ = _
    rw [Heap.set_set, Heap.set_comm _ _ _ hne.symm, s.fromBackend_clientBev p chunk hsome,
      s.fromBackend_backendBev p chunk hsome]
    rfl
  · rw [hsame, Heap.set_get (h.object hs)]

theorem backend_write {b : BevPtr} (h : Represents w B) (hs : B.sessions.get p = some s)
    (hb : s.peer = some b) (n : Nat) (hc : (s.backendBev p).canWrite = true) :
    Represents { w with bevs := w.bevs.set b ((s.backendBev p).write n) }
      (B.put p (s.toBackend n)) := by
  have hsame := s.toBackend_object p n
  refine h.put_both hs hb (Session.sock_of_object hsame) (Session.peer_of_object hsame) ?_ ?_
    rfl rfl rfl
  · rw [s.toBackend_backendBev p n (by simpa [Bufferevent.canWrite, Session.backendBev] using hc),
      s.toBackend_clientBev, Heap.set_get (h.client p s hs)]
  · rw [hsame, Heap.set_get (h.object hs)]

end TcpProxy
