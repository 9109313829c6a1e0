import TcpProxy.Proof.Events

/-!
# Teardown

A terminating event of a client tears its connection down (`Gone`), in every phase and over every
callback chain, unless it is the failure of a connect in progress: `onConnected(false)` logs it
and leaves the client connected with no backend to come (`Stranded`). So along a run every
terminating event tears down, and nobody is ever stranded, exactly if no connect fails that way
(`teardown_complete_iff`).
-/

namespace TcpProxy

open Libevent Runs

/-- The event ends the connection of the client `p`, or should. -/
def Terminates (E : Env) (w : World) (p : ProxyPtr) (e : Event) : Prop :=
  ClientCloses w p e ∨ BackendCloses w p e ∨ Rejected E w p e ∨ (∃ id, Undialed E w p id e) ∨
    ConnectFails w p e

/-- The client `p` has no proxy, and neither its socket nor one towards its backend is open. -/
structure Gone (w : World) (p : ProxyPtr) : Prop where
  dropped : p ∉ w.cm.processors
  dead : w.proxies.get p = none
  closed : ∀ b X, w.bevs.get b = some X → X.ctx.owner ≠ p

/-- The client `p` is connected and waits for its backend on a socket that has failed. -/
def Stranded (w : World) (p : ProxyPtr) : Prop :=
  p ∈ w.cm.processors ∧ InState w p .CONNECTING ∧
    ∃ b X, w.bevs.get b = some X ∧ X.ctx = .forwarder p ∧ X.link = .down

/-- If the event terminates a client, it tears its connection down. -/
def TearsDown (E : Env) (w : World) (e : Event) : Prop :=
  ∀ p ∈ w.cm.processors, Terminates E w p e → ∀ w', next E w e = some w' → Gone w' p

section
variable {E : Env} {w w' : World} {B : Board} {p : ProxyPtr} {s : Session} {e : Event}

theorem Represents.gone_iff (h : Represents w B) : Gone w p ↔ B.sessions.get p = none := by
  constructor
  · intro hg
    rw [← Option.not_isSome_iff_eq_none, ← h.processors]
    exact hg.dropped
  · refine fun hp => ⟨h.not_mem_of_gone hp, h.gone hp, fun b X hX ho => ?_⟩
    obtain ⟨q, s, hs, ⟨-, rfl⟩ | ⟨-, rfl⟩⟩ := h.socket hX
    · obtain rfl : q = p := ho
      rw [hp] at hs; cases hs
    · obtain rfl : q = p := ho
      rw [hp] at hs; cases hs

theorem Represents.stranded_iff (h : Represents w B) :
    Stranded w p ↔ ∃ s, B.sessions.get p = some s ∧ s.link = .down := by
  constructor
  · rintro ⟨-, -, b, X, hX, hctx, hl⟩
    obtain ⟨q, s, hs, ⟨-, rfl⟩ | ⟨-, rfl⟩⟩ := h.socket hX
    · cases hctx
    · obtain rfl : q = p := by simpa using hctx
      exact ⟨s, hs, hl⟩
  · rintro ⟨s, hs, hl⟩
    obtain ⟨b, hb, hst⟩ := Session.of_down hl
    exact ⟨h.mem_processors hs, (inState_iff h hs _).2 hst, b, _, h.backend p s b hs hb, rfl, hl⟩

/-- **The exact condition, for one event**: every terminating event tears down, but one. -/
theorem gone_iff (h : Represents w B) (hs : B.sessions.get p = some s)
    (ht : Terminates E w p e) (hn : next E w e = some w') : Gone w' p ↔ ¬ ConnectFails w p e := by
  rw [(next_refines h hn).gone_iff]
  by_cases hf : ConnectFails w p e
  · obtain ⟨hl, hst⟩ := (connectFails_iff (E := E) h hs).1 hf
    obtain ⟨t, ht, -⟩ := Board.step_connectFails E.config hs hst
    rw [hl, ht]
    simp [hf]
  · refine iff_of_true ?_ hf
    have hends : ClientCloses w p e ∨ BackendCloses w p e ∨ Rejected E w p e →
        (B.step E.config (label E w e)).sessions.get p = none := by
      intro he
      rw [Board.step_ends hs ((ends_iff h hs).2 he), Board.leave_sessions, Heap.get_free_self]
    rcases ht with hc | hb | hr | ⟨id, ⟨host, hc⟩, hrc⟩ | hc
    · exact hends (.inl hc)
    · exact hends (.inr (.inl hb))
    · exact hends (.inr (.inr hr))
    · obtain ⟨bs, hB⟩ := Board.step_admits hs
        ((admits_iff h hs).2 ⟨hc, (decide_eq_false hrc).symm⟩)
      rw [hB, if_neg Bool.false_ne_true, Board.leave_sessions, Heap.get_free_self]
    · exact absurd hc hf

theorem stranded_iff (h : Represents w B) (hnone : ∀ p, ¬ Stranded w p)
    (hn : next E w e = some w') : (∀ p, ¬ Stranded w' p) ↔ ∀ p, ¬ ConnectFails w p e := by
  have h' := next_refines h hn
  have hnone : ∀ p s, B.sessions.get p = some s → s.link ≠ .down := fun p s hs hl =>
    hnone p (h.stranded_iff.2 ⟨s, hs, hl⟩)
  constructor
  · intro hw' p hf
    obtain ⟨px, hpx, -⟩ := hf.2
    obtain ⟨s, hs⟩ := h.session hpx
    obtain ⟨hl, hst⟩ := (connectFails_iff (E := E) h hs).1 hf
    obtain ⟨t, ht, hd⟩ := Board.step_connectFails E.config hs hst
    exact hw' p (h'.stranded_iff.2 ⟨t, by rw [hl]; exact ht, hd⟩)
  · intro hf p hp
    obtain ⟨t, ht, hd⟩ := h'.stranded_iff.1 hp
    exact Board.step_no_down hnone
      (fun q s hs hst hl => hf q ((connectFails_iff h hs).2 ⟨hl, hst⟩)) p t ht hd

/-- **Teardown is complete exactly where no connect fails after it was started**: along a run every
terminating event tears its client's connection down unless it is such a failure; and all of them
do, with nobody ever stranded, if and only if there is none. -/
theorem teardown_complete_iff {es : List Event} (h : Run E .init es w) :
    EveryStep (next E) .init es (fun u e => ∀ p ∈ u.cm.processors, Terminates E u p e →
      ∀ u', next E u e = some u' → (Gone u' p ↔ ¬ ConnectFails u p e)) ∧
    (EveryStep (next E) .init es (TearsDown E) ∧
        EveryState (next E) .init es (fun u => ∀ p, ¬ Stranded u p) ↔
      EveryStep (next E) .init es fun u e => ∀ p, ¬ ConnectFails u p e) := by
  have hgone : ∀ u e, Reachable E u → ∀ p ∈ u.cm.processors, Terminates E u p e →
      ∀ u', next E u e = some u' → (Gone u' p ↔ ¬ ConnectFails u p e) := by
    intro u e hu p hp ht u' hn
    obtain ⟨B, hB⟩ := reachable_board hu
    obtain ⟨s, hs⟩ := hB.session_of_mem hp
    exact gone_iff hB hs ht hn
  have hstrand : EveryState (next E) .init es (fun u => ∀ p, ¬ Stranded u p) ↔
      EveryStep (next E) .init es fun u e => ∀ p, ¬ ConnectFails u p e := by
    refine EveryState.iff (fun p hp => nomatch hp.1) (fun u e u' hu hnone hn => ?_) h
    obtain ⟨B, hB⟩ := reachable_board hu
    exact stranded_iff hB hnone hn
  refine ⟨fun pre e post u _ hu => hgone u e ⟨pre, hu⟩, fun ⟨_, hs⟩ => hstrand.1 hs, fun hC =>
    ⟨fun pre e post u he hu p hp ht u' hn => ?_, hstrand.2 hC⟩⟩
  exact (hgone u e ⟨pre, hu⟩ p hp ht u' hn).2 (hC pre e post u he hu p)

end

theorem teardown_complete_iff_served :
    let E := Env.single 1 (['h'], 80)
    let es := [.accept ⟨[], 1⟩, .read 0 (header 1), .event 1 BEV_EVENT_CONNECTED,
      .event 0 BEV_EVENT_EOF]
    EveryStep (next E) .init es (TearsDown E) ∧
        EveryState (next E) .init es (fun u => ∀ p, ¬ Stranded u p) ↔
      EveryStep (next E) .init es fun u e => ∀ p, ¬ ConnectFails u p e :=
  (teardown_complete_iff (show Run (.single 1 (['h'], 80)) .init
    [.accept ⟨[], 1⟩, .read 0 (header 1), .event 1 BEV_EVENT_CONNECTED,
      .event 0 BEV_EVENT_EOF] _ from rfl)).2

/-- The backend of a client refuses the connection: the client stays, stranded. -/
theorem teardown_incomplete : ∃ w w',
    Run (.single 1 (['h'], 80)) .init [.accept ⟨[], 1⟩, .read 0 (header 1)] w ∧
      next (.single 1 (['h'], 80)) w (.event 1 BEV_EVENT_ERROR) = some w' ∧
      0 ∈ w.cm.processors ∧ ConnectFails w 0 (.event 1 BEV_EVENT_ERROR) ∧
      Stranded w' 0 ∧ ¬ Gone w' 0 := by
  refine ⟨_, _, rfl, rfl, by decide, ⟨⟨rfl, rfl, rfl⟩, _, rfl, rfl⟩,
    ⟨by decide, ⟨_, rfl, rfl⟩, 1, _, rfl, rfl, rfl⟩, fun h => h.dropped (by decide)⟩

end TcpProxy
