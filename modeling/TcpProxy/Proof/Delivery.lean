import TcpProxy.Proof.Streams
import TcpProxy.Spec.Growth
import TcpProxy.Spec.Log

/-!
# What a socket is given

A bufferevent that is open has been open, for the same object, ever since it was created, and its
streams have only grown (`streams_grow`): a byte once put in an output or taken by a socket is
never revised. So where the backends are echo servers, every client gets back the bytes it has
sent, from the first on (`echo_prefix`).
-/

namespace TcpProxy

open Libevent Runs

section
variable {E : Env} {w w' : World} {B : Board} {p : ProxyPtr} {s t : Session} {e : Event}
  {es : List Event} {b : BevPtr} {X Y : Bufferevent Ctx}

/-- Whose a socket is after an event, it was before, unless the event has opened it. -/
theorem Represents.used_before {sig : Signal} (h : Represents w B)
    (ht : (B.step E.config sig).sessions.get p = some t) (hu : t.Uses b)
    (hb : b < w.bevs.next) : ∃ s, B.sessions.get p = some s ∧ s.Uses b := by
  rw [h.nextBev] at hb
  cases Board.step_origin ht with
  | same hs => exact ⟨t, hs, hu⟩
  | goes hs hk => exact ⟨_, hs, by rw [Session.Uses, ← hk.sock, ← hk.peer]; exact hu⟩
  | @dials s id host bs hs hg hbs ha he =>
    subst he
    rcases hu with rfl | hp
    · exact ⟨s, hs, .inl rfl⟩
    · exact absurd (Option.some.inj hp) (Nat.ne_of_gt hb)
  | joins _ _ he =>
    subst he
    rcases hu with rfl | hp
    · exact absurd hb (Nat.lt_irrefl _)
    · cases hp

/-- An open bufferevent whose address was given out before an event was open before it, and has
only grown. -/
theorem Represents.bev_grows (h : Represents w B) (hn : next E w e = some w')
    (hb : b < w.bevs.next) (hY : w'.bevs.get b = some Y) :
    ∃ X, w.bevs.get b = some X ∧ X.Grows Y := by
  have h' := next_refines h hn
  obtain ⟨p, t, ht, hY⟩ := h'.socket hY
  obtain ⟨s, hs, hu⟩ := h.used_before ht (hY.imp (·.1) (·.1)) hb
  have hg : s.Grows t := Board.step_grows hs ht
  -- a client's socket does not become the one towards its backend, nor the other way round
  rcases hu with rfl | hu <;> rcases hY with ⟨hbt, rfl⟩ | ⟨hbt, rfl⟩
  · exact ⟨_, h.client p s hs, hg.clientBev p⟩
  · exact absurd (hg.sock ▸ hbt) (h'.peer_ne_sock ht)
  · exact absurd (hbt ▸ hg.peer b hu) (h'.peer_ne_sock ht)
  · exact ⟨_, h.backend p s b hs hu, hg.backendBev p⟩

theorem bevs_next_le (h : Represents w B) (hn : next E w e = some w') :
    w.bevs.next ≤ w'.bevs.next := by
  rw [h.nextBev, (next_refines h hn).nextBev]
  exact (Board.step_change _ _ _).nextSock_le

/-- **A socket's streams only grow**: a bufferevent that is open was open all the time since it was
created, bound to the same object, and of its streams no byte has changed. -/
theorem streams_grow (h : Reachable E w) (hr : Runs.Reachable (next E) w w')
    (hb : b < w.bevs.next) (hY : w'.bevs.get b = some Y) :
    ∃ X, w.bevs.get b = some X ∧ X.Grows Y := by
  have hinv : Reachable E w' ∧ w.bevs.next ≤ w'.bevs.next ∧
      ∀ Y, w'.bevs.get b = some Y → ∃ X, w.bevs.get b = some X ∧ X.Grows Y := by
    refine hr.invariant (P := fun u => Reachable E u ∧ w.bevs.next ≤ u.bevs.next ∧
      ∀ Y, u.bevs.get b = some Y → ∃ X, w.bevs.get b = some X ∧ X.Grows Y)
      ⟨h, Nat.le_refl _, fun Y hY => ⟨Y, hY, .refl Y⟩⟩ ?_
    rintro u e v - ⟨hu, hle, hg⟩ hn
    obtain ⟨B, hB⟩ := reachable_board hu
    refine ⟨hu.next hn, hle.trans (bevs_next_le hB hn), fun Y hY => ?_⟩
    obtain ⟨Z, hZ, hZY⟩ := hB.bev_grows hn (Nat.lt_of_lt_of_le hb hle) hY
    obtain ⟨X, hX, hXZ⟩ := hg Z hZ
    exact ⟨X, hX, hXZ.trans hZY⟩
  exact hinv.2.2 Y hY

/-- A client that is still there some time later has its sockets, and its streams have grown. -/
theorem Represents.run_grows (h : Represents w B) (hr : Runs.Reachable (next E) w w')
    (hs : B.sessions.get p = some s) :
    ∃ B', Represents w' B' ∧ ∀ t, B'.sessions.get p = some t → s.Grows t := by
  have hinv : ∃ B', Represents w' B' ∧ p < B'.sessions.next ∧
      ∀ t, B'.sessions.get p = some t → s.Grows t := by
    refine hr.invariant (P := fun u => ∃ B', Represents u B' ∧ p < B'.sessions.next ∧
      ∀ t, B'.sessions.get p = some t → s.Grows t) ⟨B, h, Heap.lt_next hs, fun t ht => ?_⟩ ?_
    · obtain rfl := Option.some.inj (hs.symm.trans ht)
      exact .refl _
    · rintro u e v - ⟨B', hB', hp, hg⟩ hn
      have hle := (Board.step_change E.config B' (label E u e)).next_le
      refine ⟨_, next_refines hB' hn, Nat.lt_of_lt_of_le hp hle, fun t ht => ?_⟩
      obtain ⟨t', ht', hg'⟩ := Board.step_grew hp ht
      exact (hg t' ht').trans hg'
  obtain ⟨B', hB', -, hg⟩ := hinv
  exact ⟨B', hB', hg⟩

end

theorem streams_grow_reply : ∃ w w' Y, let es := [.accept ⟨[], 1⟩, .read 0 (header 1),
      .event 1 BEV_EVENT_CONNECTED, .read 1 [8, 9]]
    Run (.single 1 (['h'], 80)) .init es w ∧
      Run (.single 1 (['h'], 80)) w [.write 0 1] w' ∧ w'.bevs.get 0 = some Y ∧
      Y.output = ⟨[8], [9]⟩ ∧ ∃ X, w.bevs.get 0 = some X ∧ X.Grows Y :=
  ⟨_, _, _, rfl, rfl, rfl, rfl, streams_grow (E := .single 1 (['h'], 80))
    ⟨[.accept ⟨[], 1⟩, .read 0 (header 1), .event 1 BEV_EVENT_CONNECTED, .read 1 [8, 9]], rfl⟩
    ⟨[.write 0 1], rfl⟩ (by decide) rfl⟩

/-! ## Echo servers -/

/-- A backend replies with bytes it has been sent, from the first on. -/
def EchoesOnly (w : World) : Event → Prop
  | .read b chunk => ∀ X ∈ w.bevs.get b, X.ctx = .forwarder X.ctx.owner →
      X.received ++ chunk <+: X.output.sent
  | _ => True

instance (w : World) : ∀ e, Decidable (EchoesOnly w e)
  | .read b chunk => inferInstanceAs (Decidable (∀ X ∈ w.bevs.get b,
      X.ctx = .forwarder X.ctx.owner → X.received ++ chunk <+: X.output.sent))
  | .accept _ | .write _ _ | .event _ _ | .control _ => .isTrue trivial

/-- The same of the backend on the socket `c` alone. -/
def EchoesOn (c : BevPtr) (w : World) : Event → Prop
  | .read b chunk => b = c → ∀ X ∈ w.bevs.get b, X.ctx = .forwarder X.ctx.owner →
      X.received ++ chunk <+: X.output.sent
  | _ => True

instance (c : BevPtr) (w : World) : ∀ e, Decidable (EchoesOn c w e)
  | .read b chunk => inferInstanceAs (Decidable (b = c → ∀ X ∈ w.bevs.get b,
      X.ctx = .forwarder X.ctx.owner → X.received ++ chunk <+: X.output.sent))
  | .accept _ | .write _ _ | .event _ _ | .control _ => .isTrue trivial

theorem EchoesOnly.on {w : World} {e : Event} (h : EchoesOnly w e) (c : BevPtr) :
    EchoesOn c w e := by
  cases e with
  | read b chunk => exact fun _ => h
  | _ => trivial

/-- The backend on the socket `c` has replied with the start of what it has been sent. -/
def Board.Echoed (B : Board) (c : BevPtr) : Prop :=
  ∀ p s, B.sessions.get p = some s → s.peer = some c → s.down.all <+: s.up.sent

section
variable {E : Env} {w w' : World} {B : Board} {p : ProxyPtr} {s t : Session} {e : Event}
  {es : List Event} {b : BevPtr} {X Y : Bufferevent Ctx}

theorem Session.down_of_peer_none {s : Session} (h : s.peer = none) : s.down = .empty := by
  rcases s with ⟨c, b, stage⟩
  cases stage with
  | greeting => rfl
  | dialing | relaying => cases h

theorem echo_replied (h : Represents w B) (hs : B.sessions.get p = some s)
    (hb : s.peer = some b) (he : EchoesOn b w e) (hB : s.down.all <+: s.up.sent) :
    s.down.all ++ (label E w e).replied p <+: s.up.sent := by
  rw [replied_label h hs hb]
  cases e with
  | read c chunk =>
    rw [Event.delivered]
    split
    · rename_i hc
      subst hc
      exact he rfl _ (h.backend p s c hs hb) rfl
    · simpa using hB
  | _ => simpa [Event.delivered] using hB

theorem echoed_step (h : Represents w B) (he : EchoesOn b w e) (hB : B.Echoed b) :
    (B.step E.config (label E w e)).Echoed b := by
  intro q u hu hb
  cases Board.step_origin hu with
  | same hs => exact hB q u hs hb
  | @goes s hs hk _ hout =>
    have hp : s.peer = some b := hk.peer.symm.trans hb
    rw [hout (by simp [hp])]
    exact (echo_replied h hs hp he (hB q s hs hp)).trans (Board.step_grows hs hu).up.sent
  | dials _ _ _ _ hu => exact hu ▸ List.nil_prefix
  | joins _ _ hu => exact hu ▸ List.nil_prefix

theorem run_echoed (h : Run E .init es w) : ∃ B, Represents w B ∧ B.Carries es ∧
    ∀ b, EveryStep (next E) .init es (EchoesOn b) → B.Echoed b := by
  refine Run.history (P := fun es w => ∃ B, Represents w B ∧ B.Carries es ∧
    ∀ b, EveryStep (next E) .init es (EchoesOn b) → B.Echoed b) ?_ ?_ h
  · exact ⟨.init, represents_init, nofun, fun _ _ => nofun⟩
  · rintro es u e v hr ⟨B, hB, hc, hE⟩ hn
    refine ⟨_, next_refines hB hn, carries_step hr hB hc hn, fun b hC => ?_⟩
    exact echoed_step hB (hC es e [] u rfl hr) (hE b hC.of_append)

theorem Board.Carries.sent_back (hc : B.Carries es) (hs : B.sessions.get p = some s)
    (hE : ∀ b, s.peer = some b → B.Echoed b) : s.down.sent <+: bytesRead s.sock es := by
  have hback : s.down.sent <+: s.up.sent := by
    rcases hp : s.peer with _ | b
    · rw [Session.down_of_peer_none hp]
      exact List.nil_prefix
    · exact s.down.sent_prefix_all.trans (hE b hp p s hs hp)
  have hpassed : s.up.sent <+: s.fromClient :=
    s.up.sent_prefix_all.trans (s.up_all_append_parked ▸ List.prefix_append _ _)
  exact (hc p s hs).1 ▸ hback.trans hpassed

/-- **Echo servers**: where every backend sends back what it is sent, every client has got back
the bytes that it has sent, from the first on; and all of them once the proxy has passed on
everything and the backend has replied to everything. -/
theorem echo_prefix (h : Run E .init es w) (hC : EveryStep (next E) .init es EchoesOnly)
    (hp : p ∈ w.cm.processors) :
    ∃ px b X, w.proxies.get p = some px ∧ px.bev = some b ∧ w.bevs.get b = some X ∧
      X.output.sent <+: bytesRead b es ∧
      ∀ f c Y, px.fwd = some f → f.bev = some c → w.bevs.get c = some Y → px.state = .FWD →
        X.output.pending = [] → Y.received = Y.output.all → X.output.sent = bytesRead b es := by
  obtain ⟨B, hB, hc, hE⟩ := run_echoed h
  obtain ⟨s, hs⟩ := hB.session_of_mem hp
  obtain ⟨hin, hout⟩ := hc p s hs
  refine ⟨_, s.sock, _, hB.object hs, rfl, hB.client p s hs, hc.sent_back hs fun b _ => hE b ?_,
    fun f c Y hf hfc hY hst hdone hecho => ?_⟩
  · exact fun pre e post u he hu => (hC pre e post u he hu).on b
  obtain ⟨d, hd, hfd⟩ := s.peer_of_fwd p hf
  obtain rfl := Option.some.inj (hfd.symm.trans hfc)
  obtain rfl := Option.some.inj ((hB.backend p s d hs hd).symm.trans hY)
  have hall : s.down.sent = s.down.all := s.down.sent_eq_all.2 hdone
  have hback : s.down.all = s.up.all := hecho
  have hpassed : s.up.all = s.fromClient := by
    rw [← s.up_all_append_parked, Session.parked_of_fwd hst, List.append_nil]
  exact (hall.trans (hback.trans hpassed)).trans hin

end

theorem echo_prefix_part : ∃ w, let es := [.accept ⟨[], 1⟩, .read 0 (header 1),
      .event 1 BEV_EVENT_CONNECTED, .write 1 12, .read 1 ((header 1).take 5), .write 0 5]
    Run (.single 1 (['h'], 80)) .init es w ∧ 0 ∈ w.cm.processors ∧
      ∃ px b X, w.proxies.get 0 = some px ∧ px.bev = some b ∧ w.bevs.get b = some X ∧
        X.output.sent <+: bytesRead b es ∧
        ∀ f c Y, px.fwd = some f → f.bev = some c → w.bevs.get c = some Y → px.state = .FWD →
          X.output.pending = [] → Y.received = Y.output.all → X.output.sent = bytesRead b es :=
  ⟨_, rfl, by decide, echo_prefix (show Run (.single 1 (['h'], 80)) .init
    [.accept ⟨[], 1⟩, .read 0 (header 1), .event 1 BEV_EVENT_CONNECTED, .write 1 12,
      .read 1 ((header 1).take 5), .write 0 5] _ from rfl) (by decide) (by decide)⟩

end TcpProxy
