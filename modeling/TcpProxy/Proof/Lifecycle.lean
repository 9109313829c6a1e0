import TcpProxy.Proof.Refine

/-!
# No lifecycle error

`Healthy E w`: whatever libevent can report next is handled without a fault, and what the managers
hold is in order. Every reachable state is healthy (`reachable_healthy`).
-/

namespace TcpProxy

open Libevent

/-- The program is in order between two events. -/
structure Healthy (E : Env) (w : World) : Prop where
  /-- no event makes the program use what is gone, free twice, or lock what is held -/
  safe : ∀ e, offers w e = true → ∃ w', handle E w e = .ok w'
  /-- what `_processors` owns is alive, and its bufferevent is open -/
  alive : ∀ p ∈ w.cm.processors, ∃ px b, w.proxies.get p = some px ∧ px.bev = some b ∧
    (w.bevs.get b).isSome = true
  stopped : w.cm.running = false → w.cm.processors = []
  mutex : w.cm.mutex = false
  lock : w.pm.lock = false

theorem Represents.healthy {E : Env} {w : World} {B : Board} (h : Represents w B) :
    Healthy E w where
  safe e ho := by
    obtain ⟨w', hok, -⟩ := handle_refines h ho
    exact ⟨w', hok⟩
  alive p hp := by
    obtain ⟨s, hs⟩ := h.session_of_mem hp
    exact ⟨_, s.sock, h.object hs, rfl, by rw [h.client p s hs]; rfl⟩
  stopped hr := by
    refine List.eq_nil_iff_forall_not_mem.2 fun p => ?_
    exact h.not_mem_of_gone (h.stopped (h.running ▸ hr) p)
  mutex := h.mutex
  lock := h.lock

/-- **No lifecycle error is reachable.** -/
theorem reachable_healthy {E : Env} {w : World} (h : Reachable E w) : Healthy E w := by
  obtain ⟨B, hB⟩ := reachable_board h
  exact hB.healthy

/-- Of two clients one is joined to its backend, and the connect of the other is in progress: the
backend's close takes the whole chain of callbacks. -/
theorem reachable_healthy_joined : ∃ w px f w', Run (.single 1 (['h'], 80)) .init
      [.accept ⟨[], 1⟩, .accept ⟨[], 2⟩, .read 0 (header 1), .read 1 (header 1),
        .event 2 BEV_EVENT_CONNECTED] w ∧
    w.proxies.get 0 = some px ∧ px.state = .FWD ∧ px.fwd = some f ∧ f.bev = some 2 ∧
    Healthy (.single 1 (['h'], 80)) w ∧
    handle (.single 1 (['h'], 80)) w (.event 2 BEV_EVENT_EOF) = .ok w' ∧
    w'.cm.processors = [1] := by
  have h : Run (.single 1 (['h'], 80)) .init [.accept ⟨[], 1⟩, .accept ⟨[], 2⟩,
    .read 0 (header 1), .read 1 (header 1), .event 2 BEV_EVENT_CONNECTED] _ := rfl
  exact ⟨_, _, _, _, h, rfl, rfl, rfl, rfl, reachable_healthy ⟨_, h⟩, rfl, rfl⟩

end TcpProxy
