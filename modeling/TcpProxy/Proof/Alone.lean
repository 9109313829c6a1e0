import TcpProxy.Proof.Frame
import TcpProxy.Proof.Delivery
import TcpProxy.Spec.Alone

/-!
# Every client is served as if it were alone

The events of one client's sockets (`Event.only`), taken by themselves, are a run of the proxy with
that client alone, at the end of which its connection is what it is in the whole run, bytes
included (`served_alone`). So what becomes of a connected client does not depend on any other
client, nor on any control message (`view_eq`).
-/

namespace TcpProxy

open Libevent Runs

def Event.socket : Event → Option BevPtr
  | .read b _ => some b
  | .write b _ => some b
  | .event b _ => some b
  | _ => none

/-- The event, of the socket `b`. -/
def Event.move (b : BevPtr) : Event → Event
  | .read _ chunk => .read b chunk
  | .write _ n => .write b n
  | .event _ events => .event b events
  | e => e

/-- Where the sockets `b` and, if there is one, `c` go. -/
def seat (b : BevPtr) (c : Option BevPtr) (d : BevPtr) : Option BevPtr :=
  if d = b then some 0 else if c = some d then some 1 else none

/-- The event, if it is one of the sockets `b` and `c`, with 0 for `b` and 1 for `c`. -/
def Event.only (b : BevPtr) (c : Option BevPtr) (e : Event) : Option Event :=
  (e.socket.bind (seat b c)).map e.move

/-- The same table, and every attempt to connect is started. -/
def Env.started (E : Env) : Env := { E with connectRc := fun _ => 0 }

theorem Env.started_config (E : Env) : E.started.config = E.config := rfl

/-- What a client's connection is, without the numbers of its objects. -/
structure View where
  connection : ClientConnection
  state : State
  id : Int
  backend : Option Config.Host
  client : Bufferevent Unit
  peer : Option (Bufferevent Unit)

/-- A bufferevent without the argument of its callbacks. -/
def bare (X : Bufferevent Ctx) : Bufferevent Unit := { X with ctx := () }

/-- The connection of the client `p`. -/
def view (w : World) (p : ProxyPtr) : Option View := do
  let px ← w.proxies.get p
  let b ← px.bev
  let X ← w.bevs.get b
  return {
    connection := ⟨px.host, px.port⟩
    state := px.state
    id := px.id
    backend := px.fwd.map fun f => (f.host, f.port)
    client := bare X
    peer := px.fwd.bind fun f => (f.bev.bind w.bevs.get).map bare }

namespace Session

def view (s : Session) : View where
  connection := s.connection
  state := s.state
  id := s.id
  backend := s.backend
  client := bare (s.clientBev 0)
  peer := s.peer.map fun _ => bare (s.backendBev 0)

theorem relocate_view (s : Session) (b c : BevPtr) : (s.relocate b c).view = s.view := by
  rcases s with ⟨_, _, _ | _ | _⟩ <;> rfl

end Session

section
variable {E : Env} {w w' : World} {B : Board} {p q : ProxyPtr} {s t : Session} {e : Event}
  {es : List Event} {b c d : BevPtr}

theorem Represents.view_eq (h : Represents w B) (hs : B.sessions.get p = some s) :
    view w p = some s.view := by
  have hbev := h.client p s hs
  have hpeer := h.backend p s
  rcases s with ⟨connection, sock, _ | ⟨id, host, peer, failed, parked, down⟩ |
    ⟨id, host, peer, up, down⟩⟩
  · simp only [view, h.object hs, Session.object_bev, Option.bind_eq_bind, Option.bind_some, hbev]
    rfl
  all_goals
    simp only [view, h.object hs, Session.object_bev, Option.bind_eq_bind, Option.bind_some, hbev,
      Session.object_fwd, Session.fwd, hpeer peer hs rfl, Option.map_some]
    rfl

/-! ## One event -/

/-- The same object, of the client `q`. -/
def Ctx.onto (q : ProxyPtr) : Ctx → Ctx
  | .proxy _ => .proxy q
  | .forwarder _ => .forwarder q

/-- An event means the same for two clients whose sockets are in the same state; the attempt of
the second one to connect is started. -/
theorem label_move {w₁ : World} {d' : BevPtr} {X X₁ : Bufferevent Ctx}
    (hd : e.socket = some d) (hX : w.bevs.get d = some X) (hX₁ : w₁.bevs.get d' = some X₁)
    (hctx : X₁.ctx = X.ctx.onto q) : label E.started w₁ (e.move d') = (label E w e).onto q := by
  have hrc : ∀ k, E.started.connectRc k = 0 := fun _ => rfl
  have hc : (w.bevs.get d).map Bufferevent.ctx = some X.ctx := by rw [hX, Option.map_some]
  have hc₁ : (w₁.bevs.get d').map Bufferevent.ctx = some (X.ctx.onto q) := by
    rw [hX₁, Option.map_some, hctx]
  cases e with
  | read b chunk =>
    obtain rfl := Option.some.inj hd
    rcases hX' : X.ctx with p | p <;> rw [hX'] at hc hc₁ <;>
      simp only [label, Event.move, hc, hc₁, Ctx.onto, Signal.onto, hrc, decide_true]
  | write b n =>
    obtain rfl := Option.some.inj hd
    rcases hX' : X.ctx with p | p <;> rw [hX'] at hc hc₁ <;>
      simp only [label, Event.move, hc, hc₁, Ctx.onto, Signal.onto]
  | event b events =>
    obtain rfl := Option.some.inj hd
    rcases hX' : X.ctx with p | p <;> rw [hX'] at hc hc₁ <;>
      simp only [label, Event.move, hc, hc₁, Ctx.onto]
    · split <;> rfl
    · split
      · rfl
      · split <;> rfl
  | accept | control => cases hd

theorem offers_move {w₁ : World} {d' : BevPtr} {X X₁ : Bufferevent Ctx}
    (hd : e.socket = some d) (hX : w.bevs.get d = some X) (hX₁ : w₁.bevs.get d' = some X₁)
    (hlink : X₁.link = X.link) (ho : offers w e = true) : offers w₁ (e.move d') = true := by
  cases e with
  | read | write | event =>
    obtain rfl := Option.some.inj hd
    simpa [offers, Event.move, hX, hX₁, Bufferevent.canRead, Bufferevent.canWrite,
      Bufferevent.canReport, hlink] using ho
  | accept | control => cases hd

/-- **One event of a client** does to another client in the same session, alone on its board,
what it does to the client. -/
theorem step_alone {w₁ : World} {B₁ : Board} {d' : BevPtr} (h : Represents w B)
    (hs : B.sessions.get p = some s)
    (ht : (B.step E.config (label E w e)).sessions.get p = some t) (ho : offers w e = true)
    (h₁ : Represents w₁ B₁) (hs₁ : B₁.sessions.get q = some (s.relocate b c))
    (hnext : s.peer = none → B₁.nextSock = c) (hd : e.socket = some d)
    (hm : d = s.sock ∧ d' = b ∨ s.peer = some d ∧ d' = c) :
    ∃ w₂ B₂, next E.started w₁ (e.move d') = some w₂ ∧ Represents w₂ B₂ ∧
      B₂.sessions.get q = some (t.relocate b c) ∧ B₂.sessions.next = B₁.sessions.next ∧
      (t.peer = none → B₂.nextSock = c) := by
  -- the two clients' bufferevents at the socket
  obtain ⟨X, X₁, hX, hX₁, hp, hctx, hlink⟩ : ∃ X X₁, w.bevs.get d = some X ∧
      w₁.bevs.get d' = some X₁ ∧ X.ctx.owner = p ∧ X₁.ctx = X.ctx.onto q ∧ X₁.link = X.link := by
    rcases hm with ⟨rfl, rfl⟩ | ⟨hpeer, rfl⟩
    · exact ⟨_, _, h.client p s hs, h₁.client q _ hs₁, rfl, rfl, rfl⟩
    · refine ⟨_, _, h.backend p s d hs hpeer, h₁.backend q _ d' hs₁ ?_, rfl, rfl, ?_⟩
      · rw [Session.relocate_peer, hpeer, Option.map_some]
      · rcases s with ⟨_, _, _ | _ | _⟩ <;> rfl
  have hlabel : label E.started w₁ (e.move d') = (label E w e).onto q :=
    label_move hd hX hX₁ hctx
  have ho₁ : offers w₁ (e.move d') = true := offers_move hd hX hX₁ hlink ho
  obtain ⟨w₂, hok, h₂⟩ := handle_refines (E := E.started) h₁ ho₁
  rw [hlabel, E.started_config] at h₂
  have hgrows : s.Grows t := Board.step_grows hs ht
  have habout : About w p e := by
    cases e with
    | read | write | event =>
      obtain rfl := Option.some.inj hd
      simp [About, hX, hp]
    | accept | control => cases hd
  refine ⟨w₂, _, next_eq.2 ⟨ho₁, hok⟩, h₂, ?_⟩
  rcases label_subject (E := E) habout with hsub | hidle
  · rw [Board.step_move hsub hs] at ht
    have hmove := Session.move_onto q ht
    have hsub₁ := Signal.subject_onto (q := q) hsub
    have hget : (B₁.step E.config ((label E w e).onto q)).sessions.get q =
        some (t.relocate b c) := by
      rw [Board.step_move hsub₁ hs₁]
      exact (Session.move_relocate hnext).trans (congrArg (Option.map _) hmove)
    refine ⟨hget, Board.step_next hsub₁, fun hpeer => ?_⟩
    rw [Board.step_nextSock hsub₁ hget (by rw [Session.relocate_peer, hpeer]; rfl)]
    refine hnext (Option.eq_none_iff_forall_ne_some.2 fun k hk => ?_)
    rw [hgrows.peer k hk] at hpeer
    cases hpeer
  · rw [hidle] at ht ⊢
    obtain rfl := Option.some.inj (hs.symm.trans ht)
    exact ⟨hs₁, rfl, hnext⟩

/-! ## A whole run -/

/-- The socket towards the backend is `c`, or will be. -/
def Session.Fits (s : Session) (w : World) (c : Option BevPtr) : Prop :=
  s.peer = c ∨ s.peer = none ∧ ∀ d, c = some d → w.bevs.next ≤ d

theorem Session.Fits.seat {c : Option BevPtr} (h : s.Fits w c) (hu : s.Uses d) :
    ∃ d', seat s.sock c d = some d' := by
  unfold TcpProxy.seat
  split
  · exact ⟨_, rfl⟩
  · rename_i hd
    have hp : s.peer = some d := hu.resolve_left hd
    rcases h with hc | ⟨hn, -⟩
    · exact ⟨1, if_pos (hc.symm.trans hp)⟩
    · rw [hp] at hn; cases hn

theorem Session.Fits.of_seat {c : Option BevPtr} {d' : BevPtr} (h : s.Fits w c)
    (hd : d < w.bevs.next) (hseat : TcpProxy.seat s.sock c d = some d') :
    d = s.sock ∧ d' = 0 ∨ s.peer = some d ∧ d' = 1 := by
  unfold TcpProxy.seat at hseat
  split at hseat
  · exact .inl ⟨‹_›, (Option.some.inj hseat).symm⟩
  · split at hseat
    · rename_i hc
      rcases h with hp | ⟨-, hfresh⟩
      · exact .inr ⟨hp.trans hc, (Option.some.inj hseat).symm⟩
      · exact absurd hd (Nat.not_lt.2 (hfresh d hc))
    · cases hseat

theorem subject_uses (h : Represents w B) (hs : B.sessions.get p = some s)
    (hsub : (label E w e).subject = some p) : ∃ d, e.socket = some d ∧ s.Uses d := by
  have howned : ∀ {d X}, w.bevs.get d = some X → X.ctx.owner = p → s.Uses d := by
    intro d X hX hp
    obtain ⟨q, t, ht, hu⟩ := h.socket hX
    obtain rfl : q = p := by rcases hu with ⟨-, rfl⟩ | ⟨-, rfl⟩ <;> exact hp
    obtain rfl := Option.some.inj (hs.symm.trans ht)
    exact hu.imp (·.1) (·.1)
  have hm := label_means E w e
  generalize label E w e = sig at hm hsub
  cases hm with
  | fromClient hX hp | fromBackend hX hp | toClient hX hp | toBackend hX hp | clientGone hX hp
  | answered hX hp | backendGone hX hp =>
    obtain rfl := Option.some.inj hsub
    exact ⟨_, rfl, howned hX (by rw [hp]; rfl)⟩
  | accept | close | closeAll | idle => cases hsub

theorem socket_open (ho : offers w e = true) (hd : e.socket = some d) : d < w.bevs.next := by
  cases e with
  | read | write | event =>
    obtain rfl := Option.some.inj hd
    obtain ⟨X, hX, -⟩ := (Option.any_eq_true _ _).1 ho
    exact Heap.lt_next hX
  | accept | control => cases hd

theorem only_fresh {c : Option BevPtr} (h : Run E .init es w) :
    w.bevs.next ≤ b → (∀ d, c = some d → w.bevs.next ≤ d) → es.filterMap (Event.only b c) = [] := by
  refine Run.history (P := fun es w => w.bevs.next ≤ b → (∀ d, c = some d → w.bevs.next ≤ d) →
    es.filterMap (Event.only b c) = []) (fun _ _ => rfl) (fun es u e v hr hp hn hb hc => ?_) h
  obtain ⟨B, hB⟩ := reachable_board ⟨es, hr⟩
  have hle : u.bevs.next ≤ v.bevs.next := bevs_next_le hB hn
  rw [List.filterMap_append, hp (hle.trans hb) fun d hd => hle.trans (hc d hd), List.nil_append]
  refine List.filterMap_eq_nil_iff.2 fun f hf => ?_
  obtain rfl := List.mem_singleton.1 hf
  rw [Event.only]
  rcases hd : f.socket with _ | d
  · rfl
  · have hlt : d < v.bevs.next := Nat.lt_of_lt_of_le (socket_open (next_eq.1 hn).1 hd) hle
    have hne : d ≠ b := Nat.ne_of_lt (Nat.lt_of_lt_of_le hlt hb)
    have hne' : c ≠ some d := fun he => Nat.not_le.2 hlt (hc d he)
    rw [Option.bind_some, seat, if_neg hne, if_neg hne']
    rfl

theorem alone_run (h : Run E .init es w) : ∃ B, Represents w B ∧
      ∀ p s c, B.sessions.get p = some s → s.Fits w c → ∃ w₁ B₁,
        Run E.started .init (.accept s.connection :: es.filterMap (Event.only s.sock c)) w₁ ∧
        Represents w₁ B₁ ∧ B₁.sessions.get 0 = some (s.relocate 0 1) ∧ B₁.sessions.next = 1 ∧
        (s.peer = none → B₁.nextSock = 1) := by
  refine Run.history (P := fun es w => ∃ B, Represents w B ∧
      ∀ p s c, B.sessions.get p = some s → s.Fits w c → ∃ w₁ B₁,
        Run E.started .init (.accept s.connection :: es.filterMap (Event.only s.sock c)) w₁ ∧
        Represents w₁ B₁ ∧ B₁.sessions.get 0 = some (s.relocate 0 1) ∧ B₁.sessions.next = 1 ∧
        (s.peer = none → B₁.nextSock = 1)) ⟨.init, represents_init, nofun⟩ ?_ h
  rintro es u e v hr ⟨B, hB, ih⟩ hn
  refine ⟨_, next_refines hB hn, fun p t c ht hfit => ?_⟩
  have hle : u.bevs.next ≤ v.bevs.next := bevs_next_le hB hn
  have ho := (next_eq.1 hn).1
  rcases hs : B.sessions.get p with _ | s
  · -- the client is accepted
    obtain ⟨connection, he, rfl⟩ : ∃ connection, e = .accept connection ∧
        t = .new connection B.nextSock := by
      cases Board.step_origin ht with
      | same h | goes h | dials h => rw [hs] at h; cases h
      | joins hl _ hu =>
        have hm := label_means E u e
        rw [hl] at hm
        cases hm
        exact ⟨_, rfl, hu⟩
    subst he
    have hown : (es ++ [Event.accept connection]).filterMap (Event.only B.nextSock c) = [] := by
      rw [List.filterMap_append, only_fresh hr (Nat.le_of_eq hB.nextBev) fun d hd => ?_]
      · rfl
      · rcases hfit with hp | ⟨-, hc⟩
        · rw [hd] at hp; cases hp
        · exact hle.trans (hc d hd)
    obtain ⟨w₁, hok, h₁⟩ := accept_refines represents_init connection
    refine ⟨w₁, _, ?_, h₁, rfl, rfl, fun _ => rfl⟩
    have hrun : Run E.started .init [.accept connection] w₁ := run_single.2 (next_eq.2 ⟨rfl, hok⟩)
    rwa [← hown] at hrun
  · have hg : s.Grows t := Board.step_grows hs ht
    have hfit' : s.Fits u c := by
      rcases hsp : s.peer with _ | k
      · refine .inr ⟨hsp, fun d hd => ?_⟩
        rcases hfit with hp | ⟨-, hc⟩
        · rw [hB.nextBev, Board.step_peer hs ht hsp (hp.trans hd)]
        · exact hle.trans (hc d hd)
      · rcases hfit with hp | ⟨hp, -⟩
        · exact .inl (hsp.trans ((hg.peer k hsp).symm.trans hp))
        · rw [hg.peer k hsp] at hp; cases hp
    obtain ⟨w₁, B₁, hr₁, h₁, hs₁, hone, hnext⟩ := ih p s c hs hfit'
    rw [List.filterMap_append, ← List.cons_append, hg.sock, hg.connection]
    -- an event of one of the client's sockets is taken there, any other one leaves the client alone
    rcases honly : e.only s.sock c with _ | e'
    · have hquiet : (label E u e).subject ≠ some p := fun hsub => by
        obtain ⟨d, hd, hu⟩ := subject_uses hB hs hsub
        obtain ⟨d', hd'⟩ := hfit'.seat hu
        simp [Event.only, hd, hd'] at honly
      obtain rfl := Board.step_rest hquiet hs ht
      refine ⟨w₁, B₁, ?_, h₁, hs₁, hone, hnext⟩
      rwa [List.filterMap_cons_none honly, List.filterMap_nil, List.append_nil]
    · rw [Event.only, Option.map_eq_some_iff] at honly
      obtain ⟨d', hseat, rfl⟩ := honly
      obtain ⟨d, hd, hseat⟩ := Option.bind_eq_some_iff.1 hseat
      obtain ⟨w₂, B₂, hn₂, h₂, hs₂, hone₂, hnext₂⟩ := step_alone hB hs ht ho h₁ hs₁ hnext hd
        (hfit'.of_seat (socket_open ho hd) hseat)
      refine ⟨w₂, B₂, ?_, h₂, hs₂, hone₂.trans hone, hnext₂⟩
      have honly : e.only s.sock c = some (e.move d') := by simp [Event.only, hd, hseat]
      rw [List.filterMap_cons_some honly, List.filterMap_nil]
      exact hr₁.concat hn₂

/-! ## The client and nobody else -/

def sockets (w : World) (p : ProxyPtr) : Option (BevPtr × Option BevPtr) := do
  let px ← w.proxies.get p
  let b ← px.bev
  return (b, px.fwd.bind (·.bev))

/-- The events of the client `p`, along a run that leads to `w`. -/
def eventsOf (w : World) (p : ProxyPtr) (es : List Event) : List Event :=
  match view w p, sockets w p with
  | some v, some (b, c) => .accept v.connection :: es.filterMap (Event.only b c)
  | _, _ => []

theorem Represents.eventsOf_eq (h : Represents w B) (hs : B.sessions.get p = some s) :
    eventsOf w p es = .accept s.connection :: es.filterMap (Event.only s.sock s.peer) := by
  have hsock : sockets w p = some (s.sock, s.peer) := by
    simp only [sockets, h.object hs, Option.bind_eq_bind, Option.bind_some, Session.object_bev,
      Session.object_fwd, Session.fwd_bev]
    rfl
  simp only [eventsOf, h.view_eq hs, hsock]
  rfl

theorem alone_view (h : Run E .init es w) (hp : p ∈ w.cm.processors) :
    ∃ w₁ B₁, Run E.started .init (eventsOf w p es) w₁ ∧ Represents w₁ B₁ ∧
      (B₁.sessions.get 0).isSome ∧ B₁.sessions.next = 1 ∧ view w₁ 0 = view w p := by
  obtain ⟨B, hB, halone⟩ := alone_run h
  obtain ⟨s, hs⟩ := hB.session_of_mem hp
  obtain ⟨w₁, B₁, hr₁, h₁, hs₁, hone, -⟩ := halone p s s.peer hs (.inl rfl)
  refine ⟨w₁, B₁, hB.eventsOf_eq hs ▸ hr₁, h₁, by rw [hs₁]; rfl, hone, ?_⟩
  rw [h₁.view_eq hs₁, hB.view_eq hs, s.relocate_view]

/-- **Every client is served as if it were alone**: the events of a connected client's own sockets,
taken by themselves, are a run of the proxy in which it is the only client ever and every connect is
started, at the end of which its connection is what it is in the whole run. -/
theorem served_alone (h : Run E .init es w) (hp : p ∈ w.cm.processors) :
    ∃ w₁, Run E.started .init (eventsOf w p es) w₁ ∧ w₁.cm.processors = [0] ∧
      w₁.proxies.next = 1 ∧ view w₁ 0 = view w p := by
  obtain ⟨w₁, B₁, hr₁, h₁, hs₁, hone, hview⟩ := alone_view h hp
  refine ⟨w₁, hr₁, ?_, h₁.nextProxy.trans hone, hview⟩
  have hmem : ∀ q, q ∈ w₁.cm.processors ↔ q = 0 := by
    intro q
    rw [h₁.processors]
    constructor
    · intro hq
      obtain ⟨t, ht⟩ := Option.isSome_iff_exists.1 hq
      exact Nat.lt_one_iff.1 (hone ▸ Heap.lt_next ht)
    · rintro rfl
      exact hs₁
  exact List.perm_singleton.1 ((List.perm_ext_iff_of_nodup h₁.nodup (List.nodup_singleton 0)).2
    fun q => by rw [hmem, List.mem_singleton])

theorem served_alone_second : ∃ w, let es := [.accept ⟨[], 1⟩, .accept ⟨[], 2⟩, .read 0 (header 1),
      .read 1 (header 1), .event 3 BEV_EVENT_CONNECTED, .read 1 [7]]
    Run (.single 1 (['h'], 80)) .init es w ∧ 1 ∈ w.cm.processors ∧
      eventsOf w 1 es = [.accept ⟨[], 2⟩, .read 0 (header 1), .event 1 BEV_EVENT_CONNECTED,
        .read 0 [7]] ∧
      ∃ w₁, Run (Env.single 1 (['h'], 80)).started .init (eventsOf w 1 es) w₁ ∧
        w₁.cm.processors = [0] ∧ w₁.proxies.next = 1 ∧ view w₁ 0 = view w 1 := by
  obtain ⟨w, h, hp, hown⟩ : ∃ w, Run (.single 1 (['h'], 80)) .init [.accept ⟨[], 1⟩,
      .accept ⟨[], 2⟩, .read 0 (header 1), .read 1 (header 1), .event 3 BEV_EVENT_CONNECTED,
      .read 1 [7]] w ∧ 1 ∈ w.cm.processors ∧ eventsOf w 1 [.accept ⟨[], 1⟩, .accept ⟨[], 2⟩,
        .read 0 (header 1), .read 1 (header 1), .event 3 BEV_EVENT_CONNECTED, .read 1 [7]] =
        [.accept ⟨[], 2⟩, .read 0 (header 1), .event 1 BEV_EVENT_CONNECTED, .read 0 [7]] :=
    ⟨_, rfl, by decide, by decide⟩
  exact ⟨w, h, hp, hown, served_alone h hp⟩

/-- **Nothing else matters to a client**: two connected clients that have had the same events, in
whatever company and whatever has become of it, are in the same state. -/
theorem same_events {E' : Env} {es' : List Event} (hE : E'.config = E.config)
    (h : Run E .init es w) (hp : p ∈ w.cm.processors) (h' : Run E' .init es' w')
    (hq : q ∈ w'.cm.processors) (hown : eventsOf w p es = eventsOf w' q es') :
    view w p = view w' q := by
  obtain ⟨u, -, hu, -, -, -, hview⟩ := alone_view h hp
  obtain ⟨u', -, hu', -, -, -, hview'⟩ := alone_view h' hq
  have hstarted : E'.started = E.started := by rw [Env.started, Env.started, hE]
  rw [hstarted, ← hown] at hu'
  rw [← hview, ← hview', hu.det hu']

end

/-- A client whose neighbour is served before it, and one whose neighbour is turned away. -/
theorem same_events_two : ∃ w w', let es := [.accept ⟨[], 1⟩, .accept ⟨[], 2⟩, .read 0 (header 1),
      .read 1 (header 1), .event 3 BEV_EVENT_CONNECTED, .read 1 [7]]
    let es' := [.accept ⟨[], 9⟩, .accept ⟨[], 2⟩, .read 1 (header 1), .read 0 (header 2),
      .event 2 BEV_EVENT_CONNECTED, .control ⟨.CLOSE, 5⟩, .read 1 [7]]
    Run (.single 1 (['h'], 80)) .init es w ∧ Run (.single 1 (['h'], 80)) .init es' w' ∧
      w.cm.processors = [1, 0] ∧ w'.cm.processors = [1] ∧ view w 1 = view w' 1 := by
  obtain ⟨w, h, hp, hown⟩ : ∃ w, Run (.single 1 (['h'], 80)) .init [.accept ⟨[], 1⟩,
      .accept ⟨[], 2⟩, .read 0 (header 1), .read 1 (header 1), .event 3 BEV_EVENT_CONNECTED,
      .read 1 [7]] w ∧ w.cm.processors = [1, 0] ∧ eventsOf w 1 [.accept ⟨[], 1⟩,
        .accept ⟨[], 2⟩, .read 0 (header 1), .read 1 (header 1), .event 3 BEV_EVENT_CONNECTED,
        .read 1 [7]] =
        [.accept ⟨[], 2⟩, .read 0 (header 1), .event 1 BEV_EVENT_CONNECTED, .read 0 [7]] :=
    ⟨_, rfl, rfl, by decide⟩
  obtain ⟨w', h', hp', hown'⟩ : ∃ w', Run (.single 1 (['h'], 80)) .init [.accept ⟨[], 9⟩,
      .accept ⟨[], 2⟩, .read 1 (header 1), .read 0 (header 2), .event 2 BEV_EVENT_CONNECTED,
      .control ⟨.CLOSE, 5⟩, .read 1 [7]] w' ∧ w'.cm.processors = [1] ∧
      eventsOf w' 1 [.accept ⟨[], 9⟩, .accept ⟨[], 2⟩, .read 1 (header 1), .read 0 (header 2),
        .event 2 BEV_EVENT_CONNECTED, .control ⟨.CLOSE, 5⟩, .read 1 [7]] =
        [.accept ⟨[], 2⟩, .read 0 (header 1), .event 1 BEV_EVENT_CONNECTED, .read 0 [7]] :=
    ⟨_, rfl, rfl, by decide⟩
  exact ⟨w, w', h, h', hp, hp', same_events rfl h (hp ▸ List.mem_cons_self) h'
    (hp' ▸ List.mem_cons_self) (hown.trans hown'.symm)⟩

end TcpProxy
