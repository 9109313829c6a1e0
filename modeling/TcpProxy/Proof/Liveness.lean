import TcpProxy.Lib.Traces
import TcpProxy.Proof.Delivery
import TcpProxy.Proof.Drain

/-!
# What is delivered in the end

Along an infinite run of the proxy, a socket that stays connected and whose output the event loop
does not leave waiting forever (`FairWrites`) takes everything that is ever put in its output
(`eventually_taken`). So what either end of a joined pair has sent reaches the other one
(`relay_delivers`), and a client of an echo server gets back all that it sends (`echo_completes`).
-/

namespace TcpProxy

open Libevent Runs

/-- An infinite run of the proxy. -/
abbrev Forever (E : Env) : Type := Behaviour (next E) World.init

/-- The socket `b` is connected and has output waiting. -/
def Waits (w : World) (b : BevPtr) : Prop :=
  ∃ X ∈ w.bevs.get b, X.link = .up ∧ X.output.pending ≠ []

instance (w : World) (b : BevPtr) : Decidable (Waits w b) :=
  inferInstanceAs (Decidable (∃ X ∈ w.bevs.get b, X.link = .up ∧ X.output.pending ≠ []))

def World.outbox (w : World) (b : BevPtr) : Outbox UInt8 :=
  (w.bevs.get b).elim .empty Bufferevent.output

theorem World.outbox_of {w : World} {b : BevPtr} {X : Bufferevent Ctx}
    (hX : w.bevs.get b = some X) : w.outbox b = X.output := by simp [World.outbox, hX]

/-! ## Fair writes -/

/-- The event loop does not leave output waiting forever: a socket that stays connected with output
waiting takes some of it. -/
def FairWrites {E : Env} (β : Forever E) (b : BevPtr) : Prop :=
  WeakFair (fun i => Waits (β.state i) b) fun i => ∃ n, 0 < n ∧ β.event i = .write b n

section
variable {E : Env} {β : Forever E} {p : ProxyPtr} {b c : BevPtr} {m i j : Nat}
  {X Y : Bufferevent Ctx}

theorem grows_between (hij : i ≤ j) (hX : (β.state i).bevs.get b = some X)
    (hY : (β.state j).bevs.get b = some Y) : X.Grows Y := by
  obtain ⟨Z, hZ, hg⟩ := streams_grow (β.reachable i) (β.reaches hij) (Heap.lt_next hX) hY
  obtain rfl := Option.some.inj (hX.symm.trans hZ)
  exact hg

theorem write_moves {w w' : World} {n : Nat} (hn : 0 < n) (hX : w.bevs.get b = some X)
    (hp : X.output.pending ≠ []) (hw : next E w (.write b n) = some w') :
    ∃ Y, w'.bevs.get b = some Y ∧ Y.output.sent ≠ X.output.sent := by
  have hok := (next_eq.1 hw).2
  simp only [handle, hX, orFault_some, ok_bind] at hok
  obtain rfl := Except.ok.inj hok
  refine ⟨X.write n, Heap.get_set_self hX _, fun he => ?_⟩
  have hnil : X.output.pending.take n = [] := by simpa [Bufferevent.write, Outbox.take] using he
  rcases List.take_eq_nil_iff.1 hnil with h | h
  · omega
  · exact hp h

def StaysUp (β : Forever E) (b : BevPtr) (m : Nat) : Prop :=
  ∀ i, m ≤ i → ∃ X, (β.state i).bevs.get b = some X ∧ X.link = .up

theorem outbox_le (hup : StaysUp β b m) (hi : m ≤ i) (hij : i ≤ j) :
    ((β.state i).outbox b).Le ((β.state j).outbox b) := by
  obtain ⟨X, hX, -⟩ := hup i hi
  obtain ⟨Y, hY, -⟩ := hup j (hi.trans hij)
  rw [World.outbox_of hX, World.outbox_of hY]
  exact (grows_between hij hX hY).output

/-- A socket whose output is not empty takes some of it. -/
theorem outbox_follows (hup : StaysUp β b m) (hfair : FairWrites β b) :
    WeakFair (fun i => m ≤ i ∧ ((β.state i).outbox b).sent ≠ ((β.state i).outbox b).all)
      fun i => ((β.state i).outbox b).sent ≠ ((β.state (i + 1)).outbox b).sent := by
  intro i hbehind
  have hwaits : ∀ j, i ≤ j → ∃ X, (β.state j).bevs.get b = some X ∧ X.link = .up ∧
      X.output.pending ≠ [] := by
    intro j hij
    obtain ⟨hm, hne⟩ := hbehind j hij
    obtain ⟨X, hX, hl⟩ := hup j hm
    rw [World.outbox_of hX, Ne, X.output.sent_eq_all] at hne
    exact ⟨X, hX, hl, hne⟩
  obtain ⟨j, hij, n, hn, hj⟩ := hfair i hwaits
  obtain ⟨X, hX, -, hne⟩ := hwaits j hij
  obtain ⟨Y, hY, hmoves⟩ := write_moves hn hX hne (hj ▸ β.next j)
  refine ⟨j, hij, fun he => hmoves ?_⟩
  rw [World.outbox_of hX, World.outbox_of hY] at he
  exact he.symm

/-- **What is put in the output of a socket is taken in the end.** -/
theorem eventually_taken (hup : StaysUp β b m) (hfair : FairWrites β b) (hi : m ≤ i)
    (hX : (β.state i).bevs.get b = some X) :
    ∃ j Y, i ≤ j ∧ (β.state j).bevs.get b = some Y ∧ X.output.all <+: Y.output.sent := by
  obtain ⟨j, hij, hj⟩ := eventually_caught_up (fun i => ((β.state i).outbox b).all)
    (fun i => ((β.state i).outbox b).sent)
    (fun i j hi hij => (outbox_le hup hi hij).all) (fun i j hi hij => (outbox_le hup hi hij).sent)
    (fun i _ => Outbox.sent_prefix_all _) (outbox_follows hup hfair) hi
  obtain ⟨Y, hY, -⟩ := hup j (hi.trans hij)
  rw [World.outbox_of hX, World.outbox_of hY] at hj
  exact ⟨j, Y, hij, hY, hj⟩

/-! ## Joined pairs -/

/-- Both sockets of a joined pair are connected; what they have delivered is in the other one's
output. -/
theorem joined_outputs (hj : Joined (β.state i) p b c) :
    ∃ X Y, (β.state i).bevs.get b = some X ∧ (β.state i).bevs.get c = some Y ∧ X.link = .up ∧
      Y.link = .up ∧ Y.output.all = bytesRead b (β.events i) ∧
      X.output.all = bytesRead c (β.events i) ∧ Y.received = bytesRead c (β.events i) := by
  obtain ⟨B, hB, hc⟩ := run_carries (β.run i)
  obtain ⟨s, hs, hst, rfl, hpeer⟩ := hB.of_joined hj
  obtain ⟨id, host, peer, hrel⟩ := Session.stage_of_fwd hst
  obtain ⟨hin, hout⟩ := hc p s hs
  refine ⟨_, _, hB.client p s hs, hB.backend p s c hs hpeer, rfl, ?_, ?_, hout c hpeer,
    hout c hpeer⟩
  · simp [Session.backendBev, Session.link, hrel]
  · rw [← hin, ← s.up_all_append_parked, Session.parked_of_fwd hst, List.append_nil]
    rfl

theorem staysUp_client (hj : ∀ i, m ≤ i → Joined (β.state i) p b c) : StaysUp β b m := by
  intro i hi
  obtain ⟨X, -, hX, -, hl, -⟩ := joined_outputs (hj i hi)
  exact ⟨X, hX, hl⟩

theorem staysUp_backend (hj : ∀ i, m ≤ i → Joined (β.state i) p b c) : StaysUp β c m := by
  intro i hi
  obtain ⟨-, Y, -, hY, -, hl, -⟩ := joined_outputs (hj i hi)
  exact ⟨Y, hY, hl⟩

/-- **A joined pair delivers in both directions**: while a client and its backend stay joined,
everything that one of them has sent is taken by the other one's socket in the end. -/
theorem relay_delivers (hj : ∀ i, m ≤ i → Joined (β.state i) p b c) (hb : FairWrites β b)
    (hc : FairWrites β c) (hi : m ≤ i) :
    (∃ j Y, i ≤ j ∧ (β.state j).bevs.get c = some Y ∧
      bytesRead b (β.events i) <+: Y.output.sent) ∧
    ∃ j X, i ≤ j ∧ (β.state j).bevs.get b = some X ∧
      bytesRead c (β.events i) <+: X.output.sent := by
  obtain ⟨X, Y, hX, hY, -, -, hYall, hXall, -⟩ := joined_outputs (hj i hi)
  rw [← hYall, ← hXall]
  exact ⟨eventually_taken (staysUp_backend hj) hc hi hY,
    eventually_taken (staysUp_client hj) hb hi hX⟩

/-! ## Echo servers -/

/-- From the moment `m` on, the backend on the socket `c` replies to everything in the end. -/
def FairEcho (β : Forever E) (c : BevPtr) (m : Nat) : Prop :=
  ∀ i Y, m ≤ i → (β.state i).bevs.get c = some Y →
    ∃ j Z, i ≤ j ∧ (β.state j).bevs.get c = some Z ∧ Y.output.sent <+: Z.received

/-- A socket that is the client's in the end has been the client's all along, and the client has had
no other backend. -/
theorem session_before {B : Board} (hj : ∀ i, m ≤ i → Joined (β.state i) p b c)
    (hB : Represents (β.state i) B) (hX : (β.state i).bevs.get b = some X) :
    ∃ s, B.sessions.get p = some s ∧ s.sock = b ∧ X = s.clientBev p ∧
      ∀ d, s.peer = some d → d = c := by
  have hle : i ≤ max i m := Nat.le_max_left i m
  have hlast := hj _ (Nat.le_max_right i m)
  have hctx : X.ctx = .proxy p := by
    obtain ⟨B', hB'⟩ := reachable_board (β.reachable (max i m))
    obtain ⟨t, ht, -, rfl, -⟩ := hB'.of_joined hlast
    exact (grows_between hle hX (hB'.client p t ht)).ctx.symm
  obtain ⟨q, s, hs, ⟨hb, rfl⟩ | ⟨-, rfl⟩⟩ := hB.socket hX
  · obtain rfl : q = p := Ctx.proxy.inj hctx
    obtain ⟨B', hB', hg⟩ := hB.run_grows (β.reaches hle) hs
    obtain ⟨t, ht, -, -, hc⟩ := hB'.of_joined hlast
    refine ⟨s, hs, hb.symm, rfl, fun d hd => ?_⟩
    exact Option.some.inj (((hg t ht).peer d hd).symm.trans hc)
  · cases hctx

/-- What a client of an echo server has got back is the start of what it has sent, also before it is
joined to it. -/
theorem echo_only (hj : ∀ i, m ≤ i → Joined (β.state i) p b c)
    (honly : ∀ i, EchoesOn c (β.state i) (β.event i)) (hX : (β.state i).bevs.get b = some X) :
    X.output.sent <+: bytesRead b (β.events i) := by
  obtain ⟨B, hB, hcar, hE⟩ := run_echoed (β.run i)
  obtain ⟨s, hs, rfl, rfl, hpeer⟩ := session_before hj hB hX
  refine hcar.sent_back hs fun d hd => ?_
  obtain rfl := hpeer d hd
  exact hE d (β.everyStep honly i)

/-- **An echo goes all the way**: a client that stays joined to an echo server gets back
everything that it has sent in the end, and at no time anything else. -/
theorem echo_completes (hj : ∀ i, m ≤ i → Joined (β.state i) p b c) (hb : FairWrites β b)
    (hc : FairWrites β c) (hecho : FairEcho β c m)
    (honly : ∀ i, EchoesOn c (β.state i) (β.event i)) :
    (∀ i, m ≤ i → ∃ j X, i ≤ j ∧ (β.state j).bevs.get b = some X ∧
      bytesRead b (β.events i) <+: X.output.sent) ∧
    ∀ i X, (β.state i).bevs.get b = some X → X.output.sent <+: bytesRead b (β.events i) := by
  refine ⟨fun i hi => ?_, fun i X hX => echo_only hj honly hX⟩
  -- to the backend, back to the proxy, and on to the client
  obtain ⟨⟨j, Y, hij, hY, htaken⟩, -⟩ := relay_delivers hj hb hc hi
  obtain ⟨k, Z, hjk, hZ, hback⟩ := hecho j Y (hi.trans hij) hY
  have hk : m ≤ k := hi.trans (hij.trans hjk)
  obtain ⟨-, Z', -, hZ', -, -, -, -, hread⟩ := joined_outputs (hj k hk)
  obtain rfl := Option.some.inj (hZ.symm.trans hZ')
  obtain ⟨-, l, X, hkl, hX, hout⟩ := relay_delivers hj hb hc hk
  rw [← hread] at hout
  exact ⟨l, X, hij.trans (hjk.trans hkl), hX, htaken.trans (hback.trans hout)⟩

/-! ## A header that is echoed -/

/-- An infinite run that ends with nothing waiting leaves nothing waiting. -/
theorem fairWrites_idling {es : List Event} {e : Event} {w : World} (h : Run E .init es w)
    (he : next E w e = some w) (hw : ¬ Waits w b) : FairWrites (Behaviour.idling h he) b := by
  intro i hwaits
  have hlast : Waits ((Behaviour.idling h he).state (i + es.length)) b := hwaits _ (by omega)
  rw [Behaviour.idling_state h he (by omega)] at hlast
  exact absurd hlast hw

end

/-- A client sends its header, which its backend sends back; from then on messages close an id that
nobody has. -/
theorem header_echoed : ∃ (w : World) (β : Forever (.single 1 (['h'], 80))),
    Waits (β.state 3) 1 ∧ (∀ i, 3 ≤ i → Joined (β.state i) 0 0 1) ∧ (∀ i, 6 ≤ i → β.state i = w) ∧
      FairWrites β 0 ∧ FairWrites β 1 ∧ (∀ Y ∈ w.bevs.get 1, Y.output.sent <+: Y.received) ∧
      ∀ i, EchoesOn 1 (β.state i) (β.event i) := by
  obtain ⟨w, h, he, hj, hb, hc, hecho, honly⟩ : ∃ w, Run (.single 1 (['h'], 80)) .init
      [.accept ⟨[], 1⟩, .read 0 (header 1), .event 1 BEV_EVENT_CONNECTED, .write 1 12,
        .read 1 (header 1), .write 0 12] w ∧
      next (.single 1 (['h'], 80)) w (.control ⟨.CLOSE, 2⟩) = some w ∧ Joined w 0 0 1 ∧
      ¬ Waits w 0 ∧ ¬ Waits w 1 ∧ (∀ Y ∈ w.bevs.get 1, Y.output.sent <+: Y.received) ∧
      EveryStep (next (.single 1 (['h'], 80))) .init [.accept ⟨[], 1⟩, .read 0 (header 1),
        .event 1 BEV_EVENT_CONNECTED, .write 1 12, .read 1 (header 1), .write 0 12] (EchoesOn 1) :=
    ⟨_, rfl, rfl, ⟨_, _, rfl, rfl, rfl, rfl, rfl⟩, by decide, by decide, by decide, by decide⟩
  refine ⟨w, .idling h he, ⟨_, rfl, rfl, by decide⟩, fun i hi => ?_,
    fun i hi => Behaviour.idling_state h he hi, fairWrites_idling h he hb,
    fairWrites_idling h he hc, hecho, Behaviour.idling_every h he honly trivial⟩
  obtain rfl | rfl | rfl | h6 : i = 3 ∨ i = 4 ∨ i = 5 ∨ 6 ≤ i := by omega
  · exact ⟨_, _, rfl, rfl, rfl, rfl, rfl⟩
  · exact ⟨_, _, rfl, rfl, rfl, rfl, rfl⟩
  · exact ⟨_, _, rfl, rfl, rfl, rfl, rfl⟩
  · exact (Behaviour.idling_state h he h6).symm ▸ hj

theorem relay_delivers_header : ∃ β : Forever (.single 1 (['h'], 80)), Waits (β.state 3) 1 ∧
    ∀ i, 3 ≤ i →
    (∃ j Y, i ≤ j ∧ (β.state j).bevs.get 1 = some Y ∧
      bytesRead 0 (β.events i) <+: Y.output.sent) ∧
    ∃ j X, i ≤ j ∧ (β.state j).bevs.get 0 = some X ∧
      bytesRead 1 (β.events i) <+: X.output.sent := by
  obtain ⟨-, β, hwaits, hj, -, hb, hc, -⟩ := header_echoed
  exact ⟨β, hwaits, fun i hi => relay_delivers hj hb hc hi⟩

theorem echo_completes_header : ∃ β : Forever (.single 1 (['h'], 80)), Waits (β.state 3) 1 ∧
    (∀ i, 3 ≤ i → ∃ j X, i ≤ j ∧ (β.state j).bevs.get 0 = some X ∧
      bytesRead 0 (β.events i) <+: X.output.sent) ∧
    ∀ i X, (β.state i).bevs.get 0 = some X → X.output.sent <+: bytesRead 0 (β.events i) := by
  obtain ⟨w, β, hwaits, hj, hstate, hb, hc, hback, honly⟩ := header_echoed
  have hecho : FairEcho β 1 3 := by
    intro i Y hi hY
    -- what the backend has taken by then it has sent back in the end
    obtain ⟨-, Z, -, hZ, -⟩ := joined_outputs (hj (i + 6) (by omega))
    have hg := grows_between (Nat.le_add_right i 6) hY hZ
    have hw := hback Z (by rw [← hstate (i + 6) (by omega)]; exact hZ)
    exact ⟨i + 6, Z, by omega, hZ, hg.output.sent.trans hw⟩
  exact ⟨β, hwaits, echo_completes hj hb hc hecho honly⟩

end TcpProxy
