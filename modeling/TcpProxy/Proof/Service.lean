import TcpProxy.Proof.Teardown

/-!
# The service goes on

`ConnectionManager::dropAll` serves both the control message that closes all connections and the
end of the process: it clears `_running`, which nothing sets again. So the service goes on along a
run exactly if no message closes all connections (`service_iff`): after one, every client accepted
is dropped at once.
-/

namespace TcpProxy

open Libevent Runs

/-- The service is in order: the next client is taken; a connected client stays until its own
connection ends or a message closes it; a message that closes all leaves none. -/
structure Serves (E : Env) (w : World) : Prop where
  accepts : ∀ connection w', next E w (.accept connection) = some w' →
    w.proxies.next ∈ w'.cm.processors
  stays : ∀ p ∈ w.cm.processors, ∀ e w', next E w e = some w' → p ∉ w'.cm.processors →
    Terminates E w p e ∨ (∃ px, w.proxies.get p = some px ∧ e = .control ⟨.CLOSE, px.id⟩) ∨
      ∃ id, e = .control ⟨.CLOSE_ALL, id⟩
  closesAll : ∀ id w', next E w (.control ⟨.CLOSE_ALL, id⟩) = some w' →
    w'.cm.processors = [] ∧ ∀ b, w'.bevs.get b = none

section
variable {E : Env} {w w' : World} {B : Board} {p : ProxyPtr} {s : Session} {e : Event}

theorem stays (h : Represents w B) (hF : B.Filed) (hp : p ∈ w.cm.processors)
    (hn : next E w e = some w') (hp' : p ∉ w'.cm.processors) :
    Terminates E w p e ∨ (∃ px, w.proxies.get p = some px ∧ e = .control ⟨.CLOSE, px.id⟩) ∨
      ∃ id, e = .control ⟨.CLOSE_ALL, id⟩ := by
  obtain ⟨s, hs⟩ := h.session_of_mem hp
  have h' := next_refines h hn
  rw [h'.processors, Option.not_isSome_iff_eq_none] at hp'
  rcases Board.step_gone hs hp' with he | ⟨id, host, ha⟩ | ⟨k, hk, hm⟩ | hall
  · left
    rcases (ends_iff h hs).1 he with hc | hc | hc
    · exact .inl hc
    · exact .inr (.inl hc)
    · exact .inr (.inr (.inl hc))
  · obtain ⟨hc, hrc⟩ := (admits_iff h hs).1 ha
    exact .inl (.inr (.inr (.inr (.inl ⟨id, ⟨host, hc⟩, of_decide_eq_false hrc.symm⟩))))
  · refine .inr (.inl ⟨_, h.object hs, ?_⟩)
    rw [Session.object_id, (hF.entry _ hm s hs).2]
    exact label_close.1 hk
  · exact .inr (.inr (label_closeAll.1 hall))

theorem serves_iff (h : Represents w B) (hF : B.Filed) : Serves E w ↔ B.running = true := by
  constructor
  · intro hs
    by_contra hr
    obtain ⟨w', hok, h'⟩ := handle_refines (E := E) (e := .accept ⟨[], 0⟩) h rfl
    have hm := hs.accepts ⟨[], 0⟩ w' (next_eq.2 ⟨rfl, hok⟩)
    have hstop : (B.join ⟨[], 0⟩).sessions.get w.proxies.next = none := by
      rw [Board.join_stopped (by simpa using hr), Heap.get_alloc_free]
      exact h.stopped (by simpa using hr) _
    rw [h'.processors] at hm
    change ((B.join ⟨[], 0⟩).sessions.get w.proxies.next).isSome = true at hm
    rw [hstop] at hm
    cases hm
  · intro hr
    refine ⟨fun connection w' hn => ?_, fun p hp e w' hn => stays h hF hp hn, fun id w' hn => ?_⟩
    · have h' := next_refines h hn
      rw [h'.processors]
      change ((B.join connection).sessions.get w.proxies.next).isSome = true
      rw [Board.join_running hr, h.nextProxy, Heap.get_alloc_next]
      rfl
    · have h' := next_refines h hn
      refine ⟨List.eq_nil_iff_forall_not_mem.2 fun p => ?_, fun b => ?_⟩
      · exact h'.not_mem_of_gone rfl
      · rcases hb : w'.bevs.get b with _ | X
        · rfl
        · obtain ⟨q, s, hs, -⟩ := h'.socket hb
          cases hs

/-- **The service goes on exactly as long as no message closes all connections.** -/
theorem service_iff {es : List Event} (h : Run E .init es w) :
    EveryState (next E) .init es (Serves E) ↔
      EveryStep (next E) .init es fun _ e => ∀ id, e ≠ .control ⟨.CLOSE_ALL, id⟩ := by
  refine EveryState.iff ((serves_iff represents_init Board.filed_init).2 rfl)
    (fun u e v hu hP hn => ?_) h
  obtain ⟨B, hB, hF⟩ := reachable_filed hu
  rw [serves_iff hB hF] at hP
  rw [serves_iff (next_refines hB hn) (Board.filed_step _ hF), Board.step_running, and_iff_right hP,
    ne_eq, label_closeAll, not_exists]

end

theorem service_iff_one :
    let es := [.accept ⟨[], 1⟩, .read 0 (header 1), .control ⟨.CLOSE, 1⟩]
    EveryState (next (.single 1 (['h'], 80))) .init es (Serves (.single 1 (['h'], 80))) ↔
      EveryStep (next (.single 1 (['h'], 80))) .init es fun _ e =>
        ∀ id, e ≠ .control ⟨.CLOSE_ALL, id⟩ :=
  service_iff (show Run (.single 1 (['h'], 80)) .init
    [.accept ⟨[], 1⟩, .read 0 (header 1), .control ⟨.CLOSE, 1⟩] _ from rfl)

/-- After a message that closes all connections the next client is not taken. -/
theorem service_ends : ∃ w w',
    Run (.single 1 (['h'], 80)) .init [.control ⟨.CLOSE_ALL, -1⟩] w ∧
      next (.single 1 (['h'], 80)) w (.accept ⟨[], 1⟩) = some w' ∧ w.proxies.next = 0 ∧
      0 ∉ w'.cm.processors ∧ ¬ Serves (.single 1 (['h'], 80)) w :=
  ⟨_, _, rfl, rfl, rfl, by decide, fun h => absurd (h.accepts ⟨[], 1⟩ _ rfl) (by decide)⟩

end TcpProxy
