import TcpProxy.Proof.Refine
import TcpProxy.Spec.Change

/-!
# The byte streams

`bytesRead b es`: what the socket `b` has delivered along the events `es`. A client's bytes are in
its own input and its forwarder's output, the backend's bytes in the client's output, in order and
complete, at every moment of every run (`streams_conserved`).
-/

namespace TcpProxy

open Libevent Runs

def Event.delivered (b : BevPtr) : Event → List UInt8
  | .read c chunk => if c = b then chunk else []
  | _ => []

/-- The bytes that the socket `b` has delivered along the events. -/
def bytesRead (b : BevPtr) (es : List Event) : List UInt8 := es.flatMap (Event.delivered b)

/-- The bytes of a client with the proxy `px`, the bufferevent `b` and its state `X`, after the
events `es`. -/
structure Conserves (es : List Event) (w : World) (px : Proxy) (b : BevPtr)
    (X : Bufferevent Ctx) : Prop where
  /-- before there is a forwarder all bytes wait in the client's input -/
  alone : px.fwd = none → px.state = .BEGIN ∧ X.input = bytesRead b es ∧ X.output.all = []
  /-- the forwarder's output, then the client's input, are the client's bytes; the client's output
  is the backend's bytes -/
  paired : ∀ f, px.fwd = some f → ∃ c Y, f.bev = some c ∧ w.bevs.get c = some Y ∧
    Y.output.all ++ X.input = bytesRead b es ∧ X.output.all = bytesRead c es ∧
    (px.state ≠ .FWD → Y.output.all = [])
  /-- once the backend is connected nothing waits in the client's input -/
  forwards : px.state = .FWD → X.input = []

theorem bytesRead_append (b : BevPtr) (es fs : List Event) :
    bytesRead b (es ++ fs) = bytesRead b es ++ bytesRead b fs := List.flatMap_append

theorem bytesRead_concat (b : BevPtr) (es : List Event) (e : Event) :
    bytesRead b (es ++ [e]) = bytesRead b es ++ e.delivered b := by simp [bytesRead]

/-- The sessions of a board after the events `es` carry the bytes their sockets have delivered. -/
def Board.Carries (es : List Event) (B : Board) : Prop :=
  ∀ p s, B.sessions.get p = some s → s.fromClient = bytesRead s.sock es ∧
    ∀ b, s.peer = some b → s.down.all = bytesRead b es

section
variable {E : Env} {w w' : World} {B : Board} {p : ProxyPtr} {s : Session} {e : Event}
  {es : List Event} {b : BevPtr}

/-! ## What an event delivers -/

theorem label_quiet (he : ∀ c chunk, e ≠ .read c chunk) :
    (label E w e).sent p = [] ∧ (label E w e).replied p = [] := by
  have hm := label_means E w e
  generalize label E w e = sig at hm
  cases hm with
  | fromClient | fromBackend => exact absurd rfl (he _ _)
  | _ => exact ⟨rfl, rfl⟩

theorem delivered_quiet (he : ∀ c chunk, e ≠ .read c chunk) : e.delivered b = [] := by
  cases e with
  | read c chunk => exact absurd rfl (he c chunk)
  | _ => rfl

/-- The bytes that an event brings from a client are those its own socket delivers. -/
theorem sent_label (h : Represents w B) (hs : B.sessions.get p = some s) :
    (label E w e).sent p = e.delivered s.sock := by
  by_cases he : ∃ c chunk, e = .read c chunk
  · obtain ⟨c, chunk, rfl⟩ := he
    by_cases hc : c = s.sock
    · simp [label, hc, h.client p s hs, Signal.sent, Event.delivered]
    · rw [Event.delivered, if_neg hc]
      rcases hX : w.bevs.get c with _ | X
      · simp [label, hX, Signal.sent]
      · obtain ⟨q, t, ht, ⟨rfl, rfl⟩ | ⟨-, rfl⟩⟩ := h.socket hX
        · have hq : q ≠ p := by
            rintro rfl
            exact hc (by rw [Option.some.inj (hs.symm.trans ht)])
          simp [label, hX, Signal.sent, hq]
        · simp [label, hX, Signal.sent]
  · simp only [not_exists] at he
    rw [(label_quiet he).1, delivered_quiet he]

theorem replied_label (h : Represents w B) (hs : B.sessions.get p = some s)
    (hb : s.peer = some b) : (label E w e).replied p = e.delivered b := by
  by_cases he : ∃ c chunk, e = .read c chunk
  · obtain ⟨c, chunk, rfl⟩ := he
    by_cases hc : c = b
    · simp [label, hc, h.backend p s b hs hb, Signal.replied, Event.delivered]
    · rw [Event.delivered, if_neg hc]
      rcases hX : w.bevs.get c with _ | X
      · simp [label, hX, Signal.replied]
      · obtain ⟨q, t, ht, ⟨-, rfl⟩ | ⟨hb', rfl⟩⟩ := h.socket hX
        · simp [label, hX, Signal.replied]
        · have hq : q ≠ p := by
            rintro rfl
            obtain rfl := Option.some.inj (hs.symm.trans ht)
            exact hc (Option.some.inj (hb'.symm.trans hb))
          simp [label, hX, Signal.replied, hq]
  · simp only [not_exists] at he
    rw [(label_quiet he).2, delivered_quiet he]

theorem delivered_fresh (hn : next E w e = some w') (hb : w.bevs.next ≤ b) :
    e.delivered b = [] := by
  cases e with
  | read c chunk =>
    obtain ⟨X, hX, -⟩ := (Option.any_eq_true _ _).1 (next_eq.1 hn).1
    exact if_neg (Nat.ne_of_lt (Nat.lt_of_lt_of_le (Heap.lt_next hX) hb))
  | _ => rfl

/-! ## What the sessions carry -/

theorem bytesRead_fresh (h : Run E .init es w) : ∀ b, w.bevs.next ≤ b → bytesRead b es = [] := by
  refine Run.history (P := fun es w => ∀ b, w.bevs.next ≤ b → bytesRead b es = [])
    (fun b _ => rfl) (fun es u e v hr hf hn b hb => ?_) h
  obtain ⟨B, hB⟩ := reachable_board ⟨es, hr⟩
  have hle : u.bevs.next ≤ v.bevs.next := by
    rw [hB.nextBev, (next_refines hB hn).nextBev]
    exact (Board.step_change _ _ _).nextSock_le
  rw [bytesRead_concat, hf b (hle.trans hb), delivered_fresh hn (hle.trans hb), List.append_nil]

theorem carries_step (hr : Run E .init es w) (h : Represents w B) (hc : B.Carries es)
    (hn : next E w e = some w') : (B.step E.config (label E w e)).Carries (es ++ [e]) := by
  -- a socket that is opened at the event
  have hnew : bytesRead B.nextSock (es ++ [e]) = [] := by
    rw [← h.nextBev, bytesRead_concat, bytesRead_fresh hr _ (Nat.le_refl _),
      delivered_fresh hn (Nat.le_refl _), List.append_nil]
  intro q u hu
  cases Board.step_origin hu with
  | same hs hin hout =>
    refine ⟨?_, fun b hb => ?_⟩
    · rw [bytesRead_concat, ← sent_label h hs, hin, List.append_nil, (hc q u hs).1]
    · rw [bytesRead_concat, ← replied_label h hs hb, hout (by simp [hb]), List.append_nil,
        (hc q u hs).2 b hb]
  | goes hs hk hin hout =>
    refine ⟨?_, fun b hb => ?_⟩
    · rw [hin, hk.sock, bytesRead_concat, ← sent_label h hs, (hc q _ hs).1]
    · rw [hk.peer] at hb
      rw [hout (by simp [hb]), bytesRead_concat, ← replied_label h hs hb, (hc q _ hs).2 b hb]
  | @dials s id host bs hs hg hbs ha hu =>
    subst hu
    refine ⟨?_, fun b hb => ?_⟩
    · change bs = bytesRead s.sock (es ++ [e])
      rw [hbs, ← Session.fromClient_of_begin hg, bytesRead_concat, ← sent_label h hs, (hc q s hs).1]
    · obtain rfl := Option.some.inj hb
      exact hnew.symm
  | joins _ _ hu =>
    subst hu
    exact ⟨hnew.symm, nofun⟩

theorem run_carries (h : Run E .init es w) : ∃ B, Represents w B ∧ B.Carries es := by
  refine Run.history (P := fun es w => ∃ B, Represents w B ∧ B.Carries es) ?_ ?_ h
  · exact ⟨.init, represents_init, nofun⟩
  · rintro es u e v hr ⟨B, hB, hc⟩ hn
    exact ⟨_, next_refines hB hn, carries_step hr hB hc hn⟩

/-- **No byte is lost, repeated, reordered or given to another client**: the bytes of every
connected client and of its backend are where they belong, after every run. -/
theorem streams_conserved (h : Run E .init es w) (hp : p ∈ w.cm.processors) :
    ∃ px b X, w.proxies.get p = some px ∧ px.bev = some b ∧ w.bevs.get b = some X ∧
      Conserves es w px b X := by
  obtain ⟨B, hB, hc⟩ := run_carries h
  obtain ⟨s, hs⟩ := hB.session_of_mem hp
  obtain ⟨hin, hout⟩ := hc p s hs
  refine ⟨_, s.sock, _, hB.object hs, rfl, hB.client p s hs, fun hf => ?_, fun f hf => ?_,
    fun hst => ?_⟩
  · have hst : s.state = .BEGIN := (s.fwd_eq_none p).1 hf
    exact ⟨hst, (Session.fromClient_of_begin hst).symm.trans hin,
      congrArg Outbox.all (Session.down_of_begin hst)⟩
  · obtain ⟨c, hc, hfc⟩ := s.peer_of_fwd p hf
    exact ⟨c, _, hfc, hB.backend p s c hs hc, s.up_all_append_parked.trans hin, hout c hc,
      fun hst => congrArg Outbox.all (Session.up_of_not_fwd hst)⟩
  · exact Session.parked_of_fwd hst

end

theorem streams_conserved_reply : ∃ w, let es := [.accept ⟨[], 1⟩, .read 0 ((header 1).take 5),
      .read 0 ((header 1).drop 5 ++ [7]), .event 1 BEV_EVENT_CONNECTED, .read 1 [8, 9]]
    Run (.single 1 (['h'], 80)) .init es w ∧ 0 ∈ w.cm.processors ∧
      ∃ px b X, w.proxies.get 0 = some px ∧ px.bev = some b ∧ w.bevs.get b = some X ∧
        Conserves es w px b X :=
  ⟨_, rfl, by decide, streams_conserved (show Run (.single 1 (['h'], 80)) .init
    [.accept ⟨[], 1⟩, .read 0 ((header 1).take 5), .read 0 ((header 1).drop 5 ++ [7]),
      .event 1 BEV_EVENT_CONNECTED, .read 1 [8, 9]] _ from rfl) (by decide)⟩

end TcpProxy
