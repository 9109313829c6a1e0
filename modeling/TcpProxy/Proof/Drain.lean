import TcpProxy.Proof.Events
import TcpProxy.Proof.Streams

/-!
# Orderly closes

When one socket of a joined pair reports the end of its stream, `ConnectionProcessor::close` frees
both bufferevents at once, whatever still waits in the other one's output. So a pair that closes
loses no byte exactly if that output has drained by then (`close_lossless_iff`).
-/

namespace TcpProxy

open Libevent Runs

/-- The socket `b` reports the end of its stream, and no error. -/
def EofOn (b : BevPtr) : Event → Prop
  | .event c events => c = b ∧ events &&& BEV_EVENT_EOF ≠ 0 ∧ events &&& BEV_EVENT_ERROR = 0
  | _ => False

/-- The client `p`, on the bufferevent `b`, is joined to its backend, on the bufferevent `c`. -/
def Joined (w : World) (p : ProxyPtr) (b c : BevPtr) : Prop :=
  ∃ px f, w.proxies.get p = some px ∧ px.state = .FWD ∧ px.bev = some b ∧ px.fwd = some f ∧
    f.bev = some c

/-- If the event, after the events `es`, is the end of the stream of `c`, then `b` is not freed
before it has taken everything that `c` has delivered. -/
def Outlives (E : Env) (es : List Event) (w : World) (e : Event) (c b : BevPtr) : Prop :=
  EofOn c e → ∀ w' X, next E w e = some w' → w.bevs.get b = some X → w'.bevs.get b = none →
    X.output.sent = bytesRead c es

/-- At the event, after the events `es`, no pair loses a byte to the end of a stream. -/
def ClosesOrderly (E : Env) (es : List Event) (w : World) (e : Event) : Prop :=
  ∀ p b c, Joined w p b c → Outlives E es w e c b ∧ Outlives E es w e b c

def Flushed (w : World) (b : BevPtr) : Prop :=
  ∀ X, w.bevs.get b = some X → X.output.pending = []

/-- When the stream of one socket of a pair ends, nothing waits in the other one's output. -/
def Drained (w : World) (e : Event) : Prop :=
  ∀ p b c, Joined w p b c → (EofOn c e → Flushed w b) ∧ (EofOn b e → Flushed w c)

/-! ## The end of a pair -/

section
variable {E : Env} {w w' : World} {B : Board} {p : ProxyPtr} {s : Session} {e : Event}
  {es : List Event} {b c : BevPtr}

theorem Represents.of_joined (h : Represents w B) (hj : Joined w p b c) :
    ∃ s, B.sessions.get p = some s ∧ s.state = .FWD ∧ s.sock = b ∧ s.peer = some c := by
  obtain ⟨px, f, hpx, hst, hb, hf, hc⟩ := hj
  obtain ⟨s, hs⟩ := h.session hpx
  obtain rfl := Option.some.inj ((h.object hs).symm.trans hpx)
  obtain ⟨c', hp, hc'⟩ := s.peer_of_fwd p hf
  exact ⟨s, hs, hst, Option.some.inj hb, hp.trans (hc'.symm.trans hc)⟩

theorem ends_of_eof (h : Represents w B) (hs : B.sessions.get p = some s) (hst : s.state = .FWD)
    (hc : s.peer = some c) (hn : next E w e = some w') (he : EofOn s.sock e ∨ EofOn c e) :
    (label E w e).Ends E.config p s := by
  have ho := (next_eq.1 hn).1
  cases e with
  | event d events =>
    rcases he with ⟨rfl, heof, -⟩ | ⟨rfl, heof, -⟩
    · refine (ends_iff h hs).2 (.inl ⟨?_, isClosed_of_eof heof⟩)
      rw [h.client p s hs]
      rfl
    · refine (ends_iff h hs).2 (.inr (.inl ⟨⟨?_, ?_, isClosed_of_eof heof⟩, ?_⟩))
      · rw [h.backend p s d hs hc]
        rfl
      · -- a connected socket is not connected again
        obtain ⟨id, host, peer, hrel⟩ := Session.stage_of_fwd hst
        simpa [offers, h.backend p s d hs hc, Bufferevent.canReport, Session.backendBev,
          Session.link, hrel] using ho
      · exact (inState_iff h hs _).2 hst
  | _ => exact he.elim False.elim False.elim

theorem Represents.closed_of_leave (h : Represents w B) (hs : B.sessions.get p = some s)
    (h' : Represents w' (B.leave p s)) (hu : s.Uses b) : w'.bevs.get b = none := by
  rcases hX : w'.bevs.get b with _ | X
  · rfl
  · obtain ⟨q, t, ht, ho⟩ := h'.socket hX
    rw [Board.leave_sessions, Heap.get_free] at ht
    split at ht
    · cases ht
    · have hut : t.Uses b := ho.imp (·.1) (·.1)
      exact absurd (h.uses_inj ht hs hut hu) ‹_›

/-- **Both bufferevents of a pair are freed at the end of either stream.** -/
theorem freed_of_eof (h : Represents w B) (hj : Joined w p b c) (hn : next E w e = some w')
    (he : EofOn b e ∨ EofOn c e) : w'.bevs.get b = none ∧ w'.bevs.get c = none := by
  obtain ⟨s, hs, hst, rfl, hc⟩ := h.of_joined hj
  have h' := next_refines h hn
  rw [Board.step_ends hs (ends_of_eof h hs hst hc hn he)] at h'
  exact ⟨h.closed_of_leave hs h' (.inl rfl), h.closed_of_leave hs h' (.inr hc)⟩

/-! ## What it loses -/

theorem outlives_iff {X : Bufferevent Ctx} (hn : next E w e = some w') (hX : w.bevs.get b = some X)
    (hall : X.output.all = bytesRead c es) (hfreed : EofOn c e → w'.bevs.get b = none) :
    Outlives E es w e c b ↔ (EofOn c e → Flushed w b) := by
  refine imp_congr_right fun he => ?_
  rw [← hall]
  constructor
  · intro h Y hY
    obtain rfl := Option.some.inj (hX.symm.trans hY)
    exact (Outbox.sent_eq_all _).1 (h w' X hn hX (hfreed he))
  · intro h v Y _ hY _
    obtain rfl := Option.some.inj (hX.symm.trans hY)
    exact (Outbox.sent_eq_all _).2 (h X hX)

theorem closesOrderly_iff (h : Represents w B) (hcar : B.Carries es) (hn : next E w e = some w') :
    ClosesOrderly E es w e ↔ Drained w e := by
  refine forall₄_congr fun p b c hj => ?_
  have hfreed := freed_of_eof h hj hn
  obtain ⟨s, hs, hst, rfl, hc⟩ := h.of_joined hj
  obtain ⟨hin, hout⟩ := hcar p s hs
  have hup : s.up.all = bytesRead s.sock es := by
    rw [← hin, ← s.up_all_append_parked, Session.parked_of_fwd hst, List.append_nil]
  exact and_congr
    (outlives_iff hn (h.client p s hs) (hout c hc) fun he => (hfreed (.inr he)).1)
    (outlives_iff hn (h.backend p s c hs hc) hup fun he => (hfreed (.inl he)).2)

/-- **A pair that closes in order loses nothing exactly if the other output has drained.** -/
theorem close_lossless_iff (h : Run E .init es w) :
    EveryStep (next E) .init es (fun u e => ∀ p b c, Joined u p b c → EofOn b e ∨ EofOn c e →
      ∀ u', next E u e = some u' → u'.bevs.get b = none ∧ u'.bevs.get c = none) ∧
    ((∀ pre e post u, es = pre ++ e :: post → Run E .init pre u → ClosesOrderly E pre u e) ↔
      EveryStep (next E) .init es Drained) := by
  refine ⟨fun pre e post u he hu p b c hj hb u' hn => ?_, ?_⟩
  · obtain ⟨B, hB⟩ := reachable_board ⟨pre, hu⟩
    exact freed_of_eof hB hj hn hb
  · refine forall₅_congr fun pre e post u he => forall_congr' fun hu => ?_
    subst he
    obtain ⟨v, hv⟩ := h.step_at hu
    obtain ⟨B, hB, hc⟩ := run_carries hu
    exact closesOrderly_iff hB hc hv

end

theorem close_lossless_iff_written :
    let E := Env.single 1 (['h'], 80)
    let es := [.accept ⟨[], 1⟩, .read 0 (header 1), .event 1 BEV_EVENT_CONNECTED, .read 1 [8, 9],
      .write 0 2, .event 1 BEV_EVENT_EOF]
    (∀ pre e post u, es = pre ++ e :: post → Run E .init pre u → ClosesOrderly E pre u e) ↔
      EveryStep (next E) .init es Drained :=
  (close_lossless_iff (show Run (.single 1 (['h'], 80)) .init
    [.accept ⟨[], 1⟩, .read 0 (header 1), .event 1 BEV_EVENT_CONNECTED, .read 1 [8, 9],
      .write 0 2, .event 1 BEV_EVENT_EOF] _ from rfl)).2

/-- The backend replies and closes before the reply is written: the reply is lost. -/
theorem close_loses : ∃ w w' X, let pre := [.accept ⟨[], 1⟩, .read 0 (header 1),
      .event 1 BEV_EVENT_CONNECTED, .read 1 [8, 9]]
    Run (.single 1 (['h'], 80)) .init pre w ∧
      next (.single 1 (['h'], 80)) w (.event 1 BEV_EVENT_EOF) = some w' ∧
      Joined w 0 0 1 ∧ EofOn 1 (.event 1 BEV_EVENT_EOF) ∧ w.bevs.get 0 = some X ∧
      w'.bevs.get 0 = none ∧ bytesRead 1 pre = [8, 9] ∧ X.output.sent = [] ∧
      ¬ ClosesOrderly (.single 1 (['h'], 80)) pre w (.event 1 BEV_EVENT_EOF) := by
  refine ⟨_, _, _, rfl, rfl, ⟨_, _, rfl, rfl, rfl, rfl, rfl⟩, ⟨rfl, by decide, by decide⟩, rfl, rfl,
    rfl, rfl, fun h => ?_⟩
  have := (h 0 0 1 ⟨_, _, rfl, rfl, rfl, rfl, rfl⟩).1 ⟨rfl, by decide, by decide⟩ _ _ rfl rfl rfl
  exact absurd this (by decide)

end TcpProxy
