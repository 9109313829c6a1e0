import TcpProxy.Proof.Close

/-!
# Which states show a board

`Shows w B`: the heaps of `w` hold the objects of the sessions of `B` and nothing else, each
bufferevent owned by one of them. `Represents w B`: with the managers' members and both locks free.
A change to one client's objects keeps the relation (`Shows.replace`, `Shows.remove`, `Shows.add`):
the callback argument of a bufferevent names its client, so no two clients share one.
-/

namespace TcpProxy

open Libevent

/-- The socket `b` is the client's or the one towards its backend. -/
def Session.Uses (s : Session) (b : BevPtr) : Prop := b = s.sock ∨ s.peer = some b

/-- What callbacks the sockets of the client `p` have. -/
def Session.Owns (s : Session) (p : ProxyPtr) (b : BevPtr) (ctx : Ctx) : Prop :=
  (b = s.sock ∧ ctx = .proxy p) ∨ (s.peer = some b ∧ ctx = .forwarder p)

structure Shows (w : World) (B : Board) : Prop where
  nextBev : w.bevs.next = B.nextSock
  nextProxy : w.proxies.next = B.sessions.next
  proxies : ∀ p, w.proxies.get p = (B.sessions.get p).map (·.object p)
  client : ∀ p s, B.sessions.get p = some s → w.bevs.get s.sock = some (s.clientBev p)
  backend : ∀ p s b, B.sessions.get p = some s → s.peer = some b →
    w.bevs.get b = some (s.backendBev p)
  owned : ∀ b X, w.bevs.get b = some X → ∃ p s, B.sessions.get p = some s ∧ s.Owns p b X.ctx

structure Represents (w : World) (B : Board) : Prop extends Shows w B where
  mutex : w.cm.mutex = false
  lock : w.pm.lock = false
  running : w.cm.running = B.running
  nodup : w.cm.processors.Nodup
  processors : ∀ p, p ∈ w.cm.processors ↔ (B.sessions.get p).isSome
  stopped : B.running = false → ∀ p, B.sessions.get p = none
  index : w.pm.idToConn = B.index
  log : w.log = B.log

namespace Shows

variable {w w' : World} {B B' : Board} {p q : ProxyPtr} {s t : Session} {b : BevPtr}

theorem object (h : Shows w B) (hs : B.sessions.get p = some s) :
    w.proxies.get p = some (s.object p) := by rw [h.proxies, hs]; rfl

theorem session (h : Shows w B) {px : Proxy} (hp : w.proxies.get p = some px) :
    ∃ s, B.sessions.get p = some s := by
  rw [h.proxies, Option.map_eq_some_iff] at hp
  obtain ⟨s, hs, -⟩ := hp
  exact ⟨s, hs⟩

theorem gone (h : Shows w B) (hs : B.sessions.get p = none) : w.proxies.get p = none := by
  rw [h.proxies, hs]; rfl

theorem owner (h : Shows w B) (hs : B.sessions.get p = some s) (hu : s.Uses b) :
    ∃ X, w.bevs.get b = some X ∧ X.ctx.owner = p := by
  rcases hu with rfl | hb
  · exact ⟨_, h.client p s hs, rfl⟩
  · exact ⟨_, h.backend p s b hs hb, rfl⟩

/-- An open bufferevent is a client's or the one towards its backend. -/
theorem socket {X : Bufferevent Ctx} (h : Shows w B) (hX : w.bevs.get b = some X) :
    ∃ p s, B.sessions.get p = some s ∧
      (b = s.sock ∧ X = s.clientBev p ∨ s.peer = some b ∧ X = s.backendBev p) := by
  obtain ⟨p, s, hs, ⟨rfl, -⟩ | ⟨hb, -⟩⟩ := h.owned b X hX
  · exact ⟨p, s, hs, .inl ⟨rfl, Option.some.inj (hX.symm.trans (h.client p s hs))⟩⟩
  · exact ⟨p, s, hs, .inr ⟨hb, Option.some.inj (hX.symm.trans (h.backend p s b hs hb))⟩⟩

/-- The bufferevent that is bound to a proxy. -/
theorem of_proxy {X : Bufferevent Ctx} (h : Shows w B) (hs : B.sessions.get p = some s)
    (hX : w.bevs.get b = some X) (hctx : X.ctx = .proxy p) : b = s.sock ∧ X = s.clientBev p := by
  obtain ⟨q, t, ht, ⟨hb, rfl⟩ | ⟨-, rfl⟩⟩ := h.socket hX
  · obtain rfl : q = p := by simpa using hctx
    obtain rfl := Option.some.inj (hs.symm.trans ht)
    exact ⟨hb, rfl⟩
  · cases hctx

/-- The bufferevent that is bound to a forwarder. -/
theorem of_forwarder {X : Bufferevent Ctx} (h : Shows w B) (hs : B.sessions.get p = some s)
    (hX : w.bevs.get b = some X) (hctx : X.ctx = .forwarder p) :
    s.peer = some b ∧ X = s.backendBev p := by
  obtain ⟨q, t, ht, ⟨-, rfl⟩ | ⟨hb, rfl⟩⟩ := h.socket hX
  · cases hctx
  · obtain rfl : q = p := by simpa using hctx
    obtain rfl := Option.some.inj (hs.symm.trans ht)
    exact ⟨hb, rfl⟩

/-- No two clients share a socket. -/
theorem uses_inj (h : Shows w B) (hs : B.sessions.get p = some s) (ht : B.sessions.get q = some t)
    (hu : s.Uses b) (hu' : t.Uses b) : p = q := by
  obtain ⟨X, hX, rfl⟩ := h.owner hs hu
  obtain ⟨Y, hY, rfl⟩ := h.owner ht hu'
  rw [Option.some.inj (hX.symm.trans hY)]

theorem peer_ne_sock (h : Shows w B) (hs : B.sessions.get p = some s) : s.peer ≠ some s.sock := by
  intro hp
  have h1 := h.client p s hs
  have h2 := h.backend p s _ hs hp
  have := congrArg Bufferevent.ctx (Option.some.inj (h1.symm.trans h2))
  simp at this

theorem uses_lt (h : Shows w B) (hs : B.sessions.get p = some s) (hu : s.Uses b) :
    b < w.bevs.next := by
  obtain ⟨X, hX, -⟩ := h.owner hs hu
  exact Heap.lt_next hX

/-- The bufferevents of a proxy are open and distinct. -/
theorem holds (h : Shows w B) (hs : B.sessions.get p = some s) : w.Holds (s.object p) where
  fwd b hb := by
    rw [Session.object_fwd, Session.fwd_bev] at hb
    simp [h.backend p s b hs hb]
  bev b hb := by
    obtain rfl : s.sock = b := by simpa using hb
    simp [h.client p s hs]
  ne b hb hf := by
    obtain rfl : s.sock = b := by simpa using hb
    rw [Session.object_fwd, Session.fwd_bev] at hf
    exact h.peer_ne_sock hs hf

/-! ## Changes to one client -/

/-- The client `p` goes from the session `s` to `t`; the socket towards its backend may be new. -/
theorem replace (h : Shows w B) (hs : B.sessions.get p = some s) (hsock : t.sock = s.sock)
    (hpeer : t.peer = s.peer ∨ s.peer = none ∧ t.peer = some w.bevs.next)
    (hB : B'.sessions = B.sessions.set p t) (hnb : w'.bevs.next = B'.nextSock)
    (hnp : w'.proxies.next = w.proxies.next)
    (hprox : ∀ q, w'.proxies.get q = if q = p then some (t.object p) else w.proxies.get q)
    (hclient : w'.bevs.get t.sock = some (t.clientBev p))
    (hback : ∀ b, t.peer = some b → w'.bevs.get b = some (t.backendBev p))
    (hrest : ∀ b, ¬ t.Uses b → w'.bevs.get b = w.bevs.get b) : Shows w' B' := by
  have hself : B'.sessions.get p = some t := by rw [hB]; exact Heap.get_set_self hs t
  have hother : ∀ q, q ≠ p → B'.sessions.get q = B.sessions.get q := fun q hq => by
    rw [hB, Heap.get_set_ne hq]
  -- the sockets of the other clients are none of `p`'s
  have hframe : ∀ q u b, q ≠ p → B.sessions.get q = some u → u.Uses b →
      w'.bevs.get b = w.bevs.get b := by
    intro q u b hq hu hub
    refine hrest b fun htb => ?_
    rcases htb with rfl | hb
    · exact hq (h.uses_inj hu hs hub (.inl hsock))
    · rcases hpeer with he | ⟨-, he⟩
      · exact hq (h.uses_inj hu hs hub (.inr (he ▸ hb)))
      · have := h.uses_lt hu hub
        rw [he] at hb
        exact Nat.ne_of_gt this (Option.some.inj hb)
  refine ⟨hnb, by rw [hnp, h.nextProxy, hB, Heap.next_set], fun q => ?_, fun q u hu => ?_,
    fun q u b hu hb => ?_, fun b X hX => ?_⟩
  · rw [hprox]
    by_cases hq : q = p
    · subst hq; rw [if_pos rfl, hself]; rfl
    · rw [if_neg hq, h.proxies, hother q hq]
  · by_cases hq : q = p
    · subst hq
      obtain rfl := Option.some.inj (hself.symm.trans hu)
      exact hclient
    · rw [hother q hq] at hu
      rw [hframe q u _ hq hu (.inl rfl), h.client q u hu]
  · by_cases hq : q = p
    · subst hq
      obtain rfl := Option.some.inj (hself.symm.trans hu)
      exact hback b hb
    · rw [hother q hq] at hu
      rw [hframe q u b hq hu (.inr hb), h.backend q u b hu hb]
  · by_cases hsk : b = t.sock
    · subst hsk
      obtain rfl := Option.some.inj (hclient.symm.trans hX)
      exact ⟨p, t, hself, .inl ⟨rfl, rfl⟩⟩
    by_cases hpr : t.peer = some b
    · obtain rfl := Option.some.inj ((hback b hpr).symm.trans hX)
      exact ⟨p, t, hself, .inr ⟨hpr, rfl⟩⟩
    rw [hrest b (not_or.2 ⟨hsk, hpr⟩)] at hX
    obtain ⟨q, u, hu, ho⟩ := h.owned b X hX
    by_cases hq : q = p
    · subst hq
      obtain rfl := Option.some.inj (hs.symm.trans hu)
      rcases ho with ⟨rfl, -⟩ | ⟨hb, -⟩
      · exact absurd hsock.symm hsk
      · rcases hpeer with he | ⟨he, -⟩
        · exact absurd (he.trans hb) hpr
        · rw [he] at hb; cases hb
    · exact ⟨q, u, by rw [hother q hq]; exact hu, ho⟩

/-- The client `p` goes. -/
theorem remove (h : Shows w B) (hs : B.sessions.get p = some s)
    (hB : B'.sessions = B.sessions.free p) (hnb : w'.bevs.next = B'.nextSock)
    (hnp : w'.proxies.next = w.proxies.next)
    (hprox : ∀ q, w'.proxies.get q = if q = p then none else w.proxies.get q)
    (hgone : ∀ b, s.Uses b → w'.bevs.get b = none)
    (hrest : ∀ b, ¬ s.Uses b → w'.bevs.get b = w.bevs.get b) : Shows w' B' := by
  have hget : ∀ q u, B'.sessions.get q = some u → q ≠ p ∧ B.sessions.get q = some u := by
    intro q u hu
    rw [hB, Heap.get_free] at hu
    split at hu
    · cases hu
    · exact ⟨‹_›, hu⟩
  have hframe : ∀ q u b, B'.sessions.get q = some u → u.Uses b → w'.bevs.get b = w.bevs.get b := by
    intro q u b hu hub
    obtain ⟨hq, hu⟩ := hget q u hu
    exact hrest b fun hb => hq (h.uses_inj hu hs hub hb)
  refine ⟨hnb, by rw [hnp, h.nextProxy, hB, Heap.next_free], fun q => ?_, fun q u hu => ?_,
    fun q u b hu hb => ?_, fun b X hX => ?_⟩
  · rw [hprox, hB, Heap.get_free]
    split
    · rfl
    · exact h.proxies q
  · rw [hframe q u _ hu (.inl rfl), h.client q u (hget q u hu).2]
  · rw [hframe q u b hu (.inr hb), h.backend q u b (hget q u hu).2 hb]
  · by_cases hsb : s.Uses b
    · rw [hgone b hsb] at hX; cases hX
    · rw [hrest b hsb] at hX
      obtain ⟨q, u, hu, ho⟩ := h.owned b X hX
      refine ⟨q, u, ?_, ho⟩
      have hq : q ≠ p := by
        rintro rfl
        obtain rfl := Option.some.inj (hs.symm.trans hu)
        exact hsb (ho.imp (·.1) (·.1))
      rw [hB, Heap.get_free, if_neg hq, hu]

/-- A client is accepted. -/
theorem add {connection : ClientConnection} (h : Shows w B)
    (hB : B'.sessions = B.sessions.alloc (.new connection B.nextSock))
    (hnb : w'.bevs.next = B'.nextSock) (hnp : w'.proxies.next = w.proxies.next + 1)
    (hprox : ∀ q, w'.proxies.get q = if q = w.proxies.next then
      some ((Session.new connection w.bevs.next).object q) else w.proxies.get q)
    (hbev : ∀ b, w'.bevs.get b = if b = w.bevs.next then
      some ((Session.new connection w.bevs.next).clientBev w.proxies.next) else w.bevs.get b) :
    Shows w' B' := by
  have hget : ∀ q u, B'.sessions.get q = some u →
      (q = w.proxies.next ∧ u = .new connection w.bevs.next) ∨
        (q ≠ w.proxies.next ∧ B.sessions.get q = some u) := by
    intro q u hu
    rw [hB, Heap.get_alloc, ← h.nextProxy, ← h.nextBev] at hu
    split at hu
    · exact .inl ⟨‹_›, (Option.some.inj hu).symm⟩
    · exact .inr ⟨‹_›, hu⟩
  have hold : ∀ q u b, B.sessions.get q = some u → u.Uses b → w'.bevs.get b = w.bevs.get b := by
    intro q u b hu hub
    rw [hbev, if_neg (Nat.ne_of_lt (h.uses_lt hu hub))]
  refine ⟨hnb, by rw [hnp, h.nextProxy, hB, Heap.next_alloc], fun q => ?_, fun q u hu => ?_,
    fun q u b hu hb => ?_, fun b X hX => ?_⟩
  · rw [hprox, hB, Heap.get_alloc, ← h.nextProxy, ← h.nextBev]
    split
    · rfl
    · exact h.proxies q
  · rcases hget q u hu with ⟨rfl, rfl⟩ | ⟨hq, hu⟩
    · exact (hbev _).trans (if_pos rfl)
    · rw [hold q u _ hu (.inl rfl), h.client q u hu]
  · rcases hget q u hu with ⟨rfl, rfl⟩ | ⟨hq, hu⟩
    · cases hb
    · rw [hold q u b hu (.inr hb), h.backend q u b hu hb]
  · rw [hbev] at hX
    split at hX
    · rename_i e
      obtain rfl := Option.some.inj hX
      refine ⟨w.proxies.next, .new connection w.bevs.next, ?_, .inl ⟨e, rfl⟩⟩
      rw [hB, Heap.get_alloc, ← h.nextProxy, if_pos rfl, h.nextBev]
    · obtain ⟨q, u, hu, ho⟩ := h.owned b X hX
      exact ⟨q, u, by rw [hB]; exact Heap.get_alloc_of hu _, ho⟩

end Shows

/-- What a board shows does not depend on the managers. -/
theorem Shows.of_heaps {w w' : World} {B B' : Board} (h : Shows w B) (hb : w'.bevs = w.bevs)
    (hp : w'.proxies = w.proxies) (hs : B'.sessions = B.sessions) (hn : B'.nextSock = B.nextSock) :
    Shows w' B' where
  nextBev := by rw [hb, hn, h.nextBev]
  nextProxy := by rw [hp, hs, h.nextProxy]
  proxies := by rw [hp, hs]; exact h.proxies
  client := by rw [hb, hs]; exact h.client
  backend := by rw [hb, hs]; exact h.backend
  owned := by rw [hb, hs]; exact h.owned

/-! ## The initial state -/

theorem represents_init : Represents World.init Board.init where
  nextBev := rfl
  nextProxy := rfl
  proxies _ := rfl
  client _ _ := nofun
  backend _ _ _ := nofun
  owned _ _ := nofun
  mutex := rfl
  lock := rfl
  running := rfl
  nodup := List.nodup_nil
  processors _ := by simp [World.init, Board.init]
  stopped := nofun
  index := rfl
  log := rfl

namespace Represents

variable {w : World} {B : Board} {p : ProxyPtr} {s : Session}

/-- A board with a client on it is open, so the manager can drop the client. -/
theorem canDrop (h : Represents w B) (hs : B.sessions.get p = some s) : w.CanDrop where
  mutex := h.mutex
  running := by
    rw [h.running]
    by_contra hc
    rw [h.stopped (by simpa using hc) p] at hs
    cases hs
  nodup := h.nodup

/-- A state with the same managers that shows a board with the same clients. -/
theorem of_shows {w' : World} {B' : Board} (h : Represents w B) (hw : Shows w' B')
    (hcm : w'.cm = w.cm) (hlock : w'.pm.lock = false) (hrun : B'.running = B.running)
    (hsome : ∀ q, (B'.sessions.get q).isSome = (B.sessions.get q).isSome)
    (hindex : w'.pm.idToConn = B'.index) (hlog : w'.log = B'.log) : Represents w' B' where
  toShows := hw
  mutex := by rw [hcm, h.mutex]
  lock := hlock
  running := by rw [hcm, h.running, hrun]
  nodup := by rw [hcm]; exact h.nodup
  processors q := by rw [hcm, h.processors, hsome]
  stopped hr q := by
    have := hsome q
    rw [h.stopped (hrun ▸ hr) q] at this
    simpa using this
  index := hindex
  log := hlog

/-- Another index. -/
theorem of_index (h : Represents w B) {m m' : Multimap Int ProxyPtr} (hm : m = m') :
    Represents (w.setIdToConn m) { B with index := m' } :=
  { h with toShows := h.toShows.of_heaps rfl rfl rfl rfl, index := hm }

/-- A state whose manager has lost the client `p` that shows the board without it. -/
theorem of_remove {w' : World} {B' : Board} (h : Represents w B) (hw : Shows w' B')
    (hcm : w'.cm = { w.cm with processors := w.cm.processors.erase p })
    (hlock : w'.pm.lock = false) (hB : B'.sessions = B.sessions.free p)
    (hrun : B'.running = B.running) (hindex : w'.pm.idToConn = B'.index)
    (hlog : w'.log = B'.log) : Represents w' B' where
  toShows := hw
  mutex := by rw [hcm]; exact h.mutex
  lock := hlock
  running := by rw [hcm, hrun]; exact h.running
  nodup := by rw [hcm]; exact h.nodup.erase p
  processors q := by
    rw [hcm, hB, Heap.get_free, h.nodup.mem_erase_iff, h.processors]
    by_cases hq : q = p <;> simp [hq]
  stopped hr q := by
    rw [hB, Heap.get_free, h.stopped (hrun ▸ hr) q, ite_self]
  index := hindex
  log := hlog

theorem mem_processors (h : Represents w B) (hs : B.sessions.get p = some s) :
    p ∈ w.cm.processors := (h.processors p).2 (by simp [hs])

theorem session_of_mem (h : Represents w B) (hp : p ∈ w.cm.processors) :
    ∃ s, B.sessions.get p = some s := Option.isSome_iff_exists.1 ((h.processors p).1 hp)

theorem not_mem_of_gone (h : Represents w B) (hs : B.sessions.get p = none) :
    p ∉ w.cm.processors := by rw [h.processors, hs]; exact Bool.false_ne_true

end Represents

end TcpProxy
