import TcpProxy.Proof.Delivery
import TcpProxy.Proof.Teardown
import TcpProxy.Spec.Alone
import TcpProxy.Spec.Route

/-!
# Stranded clients

A client whose connect has failed is not served again: nobody tries another connect, and there is
no time limit. It waits, and what it sends piles up in its input, until its own socket closes or a
message drops it (`stranded_until`).
-/

namespace TcpProxy

open Libevent Runs

/-- The event ends the wait of the client `p`. -/
def Frees (w : World) (p : ProxyPtr) (e : Event) : Prop :=
  ClientCloses w p e ∨ (∃ k, e = .control ⟨.CLOSE, k⟩ ∧ (k, p) ∈ w.pm.idToConn) ∨
    ∃ id, e = .control ⟨.CLOSE_ALL, id⟩

/-- The client `p`, stranded in `u`, still is after the events `es`, in `w`. -/
structure StaysStranded (u : World) (es : List Event) (w : World) (p : ProxyPtr) : Prop where
  stranded : Stranded w p
  /-- nobody tries another connect -/
  calls : callsOf p w.log = callsOf p u.log
  /-- what the client has sent is kept, and nothing is put in its output -/
  client : ∀ b X, u.bevs.get b = some X → X.ctx = .proxy p → ∃ Y, w.bevs.get b = some Y ∧
    Y.input = X.input ++ bytesRead b es ∧ Y.output.all = X.output.all
  /-- nothing is passed on -/
  backend : ∀ c X, u.bevs.get c = some X → X.ctx = .forwarder p → ∃ Y, w.bevs.get c = some Y ∧
    Y.output = .empty

theorem Signal.sent_of_ne {sig : Signal} {p : ProxyPtr} (h : sig.subject ≠ some p) :
    sig.sent p = [] := by
  cases sig with
  | fromClient q chunk d => exact if_neg fun e => h (congrArg some e)
  | _ => rfl

/-! ## On the board -/

/-- The session `t` of a client that waits is `s`, and the bytes `bs` behind. -/
structure Session.Behind (s t : Session) (bs : List UInt8) : Prop where
  link : t.link = .down
  sock : t.sock = s.sock
  peer : t.peer = s.peer
  fromClient : t.fromClient = s.fromClient ++ bs
  down : t.down.all = s.down.all

section
variable {hosts : Config.Hosts} {B : Board} {sig : Signal} {p : ProxyPtr} {s t u : Session}
  {bs cs : List UInt8} {fresh : BevPtr}

namespace Session

theorem Behind.refl (h : s.link = .down) : s.Behind s [] :=
  ⟨h, rfl, rfl, (List.append_nil _).symm, rfl⟩

theorem Behind.trans (h : s.Behind t bs) (h' : t.Behind u cs) : s.Behind u (bs ++ cs) :=
  ⟨h'.link, h'.sock.trans h.sock, h'.peer.trans h.peer,
    by rw [h'.fromClient, h.fromClient, List.append_assoc], h'.down.trans h.down⟩

theorem stage_of_down (h : s.link = .down) :
    ∃ id host peer down, s.stage = .dialing id host peer true s.parked down := by
  obtain ⟨-, -, hst⟩ := of_down h
  obtain ⟨id, host, peer, failed, down, hst⟩ := stage_of_connecting hst
  refine ⟨id, host, peer, down, ?_⟩
  cases failed with
  | true => exact hst
  | false =>
    rw [link, hst] at h
    cases h

/-- Nothing is passed on for a client that waits. -/
theorem up_of_down (h : s.link = .down) : s.up = .empty := by
  obtain ⟨-, -, hst⟩ := of_down h
  exact up_of_not_fwd (by rw [hst]; nofun)

theorem parked_of_down (h : s.link = .down) : s.parked = s.fromClient := by
  rw [← s.up_all_append_parked, up_of_down h, Outbox.all_empty, List.nil_append]

/-- **What a signal does to a client that waits**, unless it is the backend's. -/
theorem move_down (hl : s.link = .down) (hsub : sig.subject = some p) (hans : sig ≠ .answered p)
    (hrep : ∀ chunk, sig ≠ .fromBackend p chunk) (ht : s.move hosts fresh sig = some t) :
    s.Behind t (sig.sent p) := by
  obtain ⟨id, host, peer, down, hst⟩ := stage_of_down hl
  cases sig with
  | fromClient q chunk d =>
    obtain rfl := Option.some.inj hsub
    simp only [move, receive, hst] at ht
    obtain rfl := Option.some.inj ht
    refine ⟨rfl, rfl, ?_, ?_, ?_⟩ <;>
      simp [Session.peer, Session.fromClient, Session.down, Signal.sent, hst]
  | toClient q n =>
    obtain rfl := Option.some.inj ht
    refine ⟨?_, ?_, ?_, ?_, ?_⟩ <;>
      simp [Session.toClient, Session.link, Session.peer, Session.fromClient, Session.down,
        Signal.sent, hst]
  | toBackend q n =>
    simp only [move, Session.toBackend, hst] at ht
    obtain rfl := Option.some.inj ht
    exact .refl hl
  | backendGone q =>
    simp only [move, lose, hst] at ht
    obtain rfl := Option.some.inj ht
    refine ⟨rfl, rfl, ?_, ?_, ?_⟩ <;>
      simp [Session.peer, Session.fromClient, Session.down, Signal.sent, hst]
  | clientGone q => cases ht
  | answered q =>
    obtain rfl := Option.some.inj hsub
    exact absurd rfl hans
  | fromBackend q chunk =>
    obtain rfl := Option.some.inj hsub
    exact absurd rfl (hrep chunk)
  | join | close | closeAll | idle => cases hsub

end Session

namespace Board

theorem step_down (hs : B.sessions.get p = some s) (hl : s.link = .down)
    (hans : sig ≠ .answered p) (hrep : ∀ chunk, sig ≠ .fromBackend p chunk)
    (ht : (B.step hosts sig).sessions.get p = some t) : s.Behind t (sig.sent p) := by
  by_cases hsub : sig.subject = some p
  · exact Session.move_down hl hsub hans hrep ((step_move hsub hs).symm.trans ht)
  · rw [step_rest hsub hs ht, Signal.sent_of_ne hsub]
    exact .refl hl

/-- A client that waits leaves when it closes, and when a message drops it. -/
theorem step_down_gone (hs : B.sessions.get p = some s) (hl : s.link = .down) :
    (B.step hosts sig).sessions.get p = none ↔
      sig = .clientGone p ∨ (∃ k, sig = .close k ∧ (k, p) ∈ B.index) ∨ sig = .closeAll := by
  obtain ⟨-, -, hst⟩ := Session.of_down hl
  constructor
  · intro hp
    rcases step_gone hs hp with he | ⟨id, host, ha⟩ | hc
    · rcases Signal.ends_iff.1 he with hg | ⟨-, hf⟩ | ⟨hb, -⟩
      · exact .inl hg
      · rw [hst] at hf; cases hf
      · rw [hst] at hb; cases hb
    · have hb := (Signal.admits_iff.1 ha).1
      rw [hst] at hb; cases hb
    · exact .inr hc
  · rintro (rfl | ⟨k, rfl, hk⟩ | rfl)
    · rw [step, onClient_some hs, leave_sessions, Heap.get_free_self]
    · exact (close_get B k p).trans (if_pos hk)
    · rfl

end Board

end

/-! ## Of the program -/

section
variable {E : Env} {u w w' : World} {B : Board} {p : ProxyPtr} {s t : Session} {e : Event}
  {es : List Event}

theorem frees_iff (h : Represents w B) : Frees w p e ↔ label E w e = .clientGone p ∨
    (∃ k, label E w e = .close k ∧ (k, p) ∈ B.index) ∨ label E w e = .closeAll := by
  simp only [Frees, label_clientGone, label_close, label_closeAll, h.index]

/-- A socket that has failed neither connects nor delivers. -/
theorem label_down (h : Represents w B) (hs : B.sessions.get p = some s) (hl : s.link = .down)
    (hn : next E w e = some w') :
    label E w e ≠ .answered p ∧ ∀ chunk, label E w e ≠ .fromBackend p chunk := by
  have hdown : ∀ b X, w.bevs.get b = some X → X.ctx = .forwarder p → X.link = .down := by
    intro b X hX hctx
    obtain ⟨-, rfl⟩ := h.of_forwarder hs hX hctx
    exact hl
  have ho := (next_eq.1 hn).1
  have hm := label_means E w e
  refine ⟨fun hlab => ?_, fun chunk hlab => ?_⟩
  · rw [hlab] at hm
    cases hm with
    | answered hX hp hc =>
      obtain ⟨Y, hY, hr⟩ := (Option.any_eq_true _ _).1 ho
      obtain rfl := Option.some.inj (hX.symm.trans hY)
      rw [Bufferevent.canReport, hc, hdown _ _ hX hp] at hr
      cases hr
  · rw [hlab] at hm
    cases hm with
    | fromBackend hX hp =>
      obtain ⟨Y, hY, hr⟩ := (Option.any_eq_true _ _).1 ho
      obtain rfl := Option.some.inj (hX.symm.trans hY)
      rw [Bufferevent.canRead, hdown _ _ hX hp] at hr
      cases hr

theorem stranded_step (h : Represents w B) (hs : B.sessions.get p = some s) (hl : s.link = .down)
    (hn : next E w e = some w') :
    (¬ Frees w p e → ∃ t, (B.step E.config (label E w e)).sessions.get p = some t ∧
      s.Behind t (e.delivered s.sock)) ∧
    (Frees w p e → (B.step E.config (label E w e)).sessions.get p = none) := by
  rw [frees_iff h, ← Board.step_down_gone hs hl]
  refine ⟨fun hp => ?_, id⟩
  obtain ⟨t, ht⟩ := Option.ne_none_iff_exists'.1 hp
  obtain ⟨hans, hrep⟩ := label_down h hs hl hn
  exact ⟨t, ht, sent_label h hs ▸ Board.step_down hs hl hans hrep ht⟩

theorem calls_step (hs : B.sessions.get p = some s) (hl : s.link = .down) :
    callsOf p (B.step E.config (label E w e)).log = callsOf p B.log := by
  rcases (Board.step_change E.config B (label E w e)).log with hlog |
    ⟨q, t, id, host, d, ht, hb, -, hlog⟩
  · rw [hlog]
  · have hne : p ≠ q := by
      rintro rfl
      obtain rfl := Option.some.inj (hs.symm.trans ht)
      rw [(Session.of_down hl).choose_spec.2] at hb
      cases hb
    rw [hlog, Board.callsOf_register q id host hne]

theorem stranded_run (hu : Represents u B) (hs : B.sessions.get p = some s) (hl : s.link = .down)
    (h : Run E u es w) :
    (EveryStep (next E) u es (fun v e => ¬ Frees v p e) → ∃ B' t, Represents w B' ∧
      callsOf p B'.log = callsOf p B.log ∧ B'.sessions.get p = some t ∧
      s.Behind t (bytesRead s.sock es)) ∧
    (¬ EveryStep (next E) u es (fun v e => ¬ Frees v p e) → ∃ B', Represents w B' ∧
      callsOf p B'.log = callsOf p B.log ∧ p < B'.sessions.next ∧ B'.sessions.get p = none) := by
  refine Run.until (P := fun es w => ∃ B' t, Represents w B' ∧
      callsOf p B'.log = callsOf p B.log ∧ B'.sessions.get p = some t ∧
      s.Behind t (bytesRead s.sock es))
    (Q := fun _ w => ∃ B', Represents w B' ∧ callsOf p B'.log = callsOf p B.log ∧
      p < B'.sessions.next ∧ B'.sessions.get p = none) ?_ ?_ ?_ ?_ h
  · exact ⟨B, s, hu, rfl, hs, .refl hl⟩
  · rintro es v e w ⟨B', t, hB, hlog, ht, hst⟩ he hn
    obtain ⟨t', ht', hst'⟩ := (stranded_step hB ht hst.link hn).1 he
    refine ⟨_, t', next_refines hB hn, (calls_step ht hst.link).trans hlog, ht', ?_⟩
    rw [bytesRead_concat]
    exact hst.trans (hst.sock ▸ hst')
  · rintro es v e w ⟨B', t, hB, hlog, ht, hst⟩ he hn
    have hnone := (stranded_step hB ht hst.link hn).2 (not_not.1 he)
    have hlt := Nat.lt_of_lt_of_le (Heap.lt_next ht)
      (Board.step_change E.config B' (label E v e)).next_le
    exact ⟨_, next_refines hB hn, (calls_step ht hst.link).trans hlog, hlt, hnone⟩
  · rintro es v e w ⟨B', hB, hlog, hlt, hnone⟩ hn
    obtain ⟨hnone', hcalls⟩ := Board.step_stays_gone E.config (label E v e) hnone hlt
    have hlt' := Nat.lt_of_lt_of_le hlt
      (Board.step_change E.config B' (label E v e)).next_le
    exact ⟨_, next_refines hB hn, hcalls.trans hlog, hlt', hnone'⟩

/-- **Stranded for good**: a client whose connect has failed makes no further call; it stays
connected, with what it sends kept and nothing passed on in either direction, exactly until its own
socket closes or fails, or a message drops it. -/
theorem stranded_until (hu : Reachable E u) (hp : Stranded u p) (h : Run E u es w) :
    (EveryStep (next E) u es (fun v e => ¬ Frees v p e) → StaysStranded u es w p) ∧
      (¬ EveryStep (next E) u es (fun v e => ¬ Frees v p e) →
        Gone w p ∧ callsOf p w.log = callsOf p u.log) := by
  obtain ⟨B, hB⟩ := reachable_board hu
  obtain ⟨s, hs, hl⟩ := hB.stranded_iff.1 hp
  obtain ⟨hwait, hgone⟩ := stranded_run hB hs hl h
  refine ⟨fun hC => ?_, fun hC => ?_⟩
  · obtain ⟨B', t, hB', hlog, ht, hst⟩ := hwait hC
    refine ⟨hB'.stranded_iff.2 ⟨t, ht, hst.link⟩, by rw [hB'.log, hB.log, hlog],
      fun b X hX hctx => ?_, fun c X hX hctx => ?_⟩
    · obtain ⟨rfl, rfl⟩ := hB.of_proxy hs hX hctx
      refine ⟨_, hst.sock ▸ hB'.client p t ht, ?_, hst.down⟩
      show t.parked = s.parked ++ bytesRead s.sock es
      rw [Session.parked_of_down hst.link, Session.parked_of_down hl, hst.fromClient]
    · obtain ⟨hc, rfl⟩ := hB.of_forwarder hs hX hctx
      exact ⟨_, hB'.backend p t c ht (hst.peer.trans hc), Session.up_of_down hst.link⟩
  · obtain ⟨B', hB', hlog, -, hnone⟩ := hgone hC
    exact ⟨hB'.gone_iff.2 hnone, by rw [hB'.log, hB.log, hlog]⟩

end

/-- The backend of a client refuses; the client goes on sending, and a message that closes its id
drops it. -/
theorem stranded_until_closed : ∃ u v w, Run (.single 1 (['h'], 80)) .init [.accept ⟨[], 1⟩,
      .read 0 (header 1), .event 1 BEV_EVENT_ERROR] u ∧
    Run (.single 1 (['h'], 80)) u [.read 0 [7]] v ∧ StaysStranded u [.read 0 [7]] v 0 ∧
    Run (.single 1 (['h'], 80)) u [.read 0 [7], .control ⟨.CLOSE, 1⟩] w ∧ Gone w 0 := by
  obtain ⟨u, v, w, hu, hp, hv, hk, hw⟩ : ∃ u v w, Run (.single 1 (['h'], 80)) .init
      [.accept ⟨[], 1⟩, .read 0 (header 1), .event 1 BEV_EVENT_ERROR] u ∧ Stranded u 0 ∧
      Run (.single 1 (['h'], 80)) u [.read 0 [7]] v ∧ (1, 0) ∈ v.pm.idToConn ∧
      Run (.single 1 (['h'], 80)) u [.read 0 [7], .control ⟨.CLOSE, 1⟩] w :=
    ⟨_, _, _, rfl, ⟨by decide, ⟨_, rfl, rfl⟩, 1, _, rfl, rfl, rfl⟩, rfl, by decide, rfl⟩
  refine ⟨u, v, w, hu, hv, (stranded_until ⟨_, hu⟩ hp hv).1 ?_, hw,
    ((stranded_until ⟨_, hu⟩ hp hw).2 fun hC => ?_).1⟩
  · refine everyStep_cons.2 ⟨?_, fun _ _ => everyStep_nil⟩
    rintro (h | ⟨_, h, _⟩ | ⟨_, h⟩) <;> cases h
  · exact hC [.read 0 [7]] (.control ⟨.CLOSE, 1⟩) [] v rfl hv (.inr (.inl ⟨1, rfl, hk⟩))

end TcpProxy
