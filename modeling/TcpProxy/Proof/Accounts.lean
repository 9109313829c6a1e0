import TcpProxy.Proof.Refine

/-!
# Nothing leaks

The objects that are alive between two events are exactly those that the connected clients need:
the proxies in `_processors`, one bufferevent for each, and one more for each that has a forwarder
(`objects_counted`).
-/

namespace TcpProxy

open Libevent

/-- The bufferevents that the client `p` holds: its own, and its forwarder's. -/
def World.held (w : World) (p : ProxyPtr) : List BevPtr :=
  match w.proxies.get p with
  | some px => px.bev.toList ++ (px.fwd.bind (·.bev)).toList
  | none => []

/-- The client `p` has a forwarder. -/
def World.forwards (w : World) (p : ProxyPtr) : Bool :=
  (w.proxies.get p).any (·.fwd.isSome)

section
variable {E : Env} {w : World} {B : Board} {p q : ProxyPtr} {s : Session} {b : BevPtr}

theorem Represents.held_eq (h : Represents w B) (hs : B.sessions.get p = some s) :
    w.held p = s.sock :: s.peer.toList := by
  simp only [World.held, h.object hs, Session.object_bev, Session.object_fwd, Session.fwd_bev,
    Option.toList_some, List.singleton_append]

theorem Represents.mem_held (h : Represents w B) (hs : B.sessions.get p = some s) :
    b ∈ w.held p ↔ s.Uses b := by
  rw [h.held_eq hs, List.mem_cons, Option.mem_toList]
  exact Iff.rfl

theorem Represents.length_held (h : Represents w B) (hs : B.sessions.get p = some s) :
    (w.held p).length = 1 + if w.forwards p then 1 else 0 := by
  have hfwd : w.forwards p = s.peer.isSome := by
    rw [World.forwards, h.object hs, Option.any_some, Session.object_fwd]
    rcases s with ⟨_, _, _ | _ | _⟩ <;> rfl
  rw [h.held_eq hs, hfwd]
  rcases s.peer with _ | c <;> rfl

/-- No bufferevent is held twice. -/
theorem Represents.nodup_held (h : Represents w B) :
    (w.cm.processors.flatMap w.held).Nodup := by
  rw [List.nodup_flatMap]
  refine ⟨fun p hp => ?_, h.nodup.imp_of_mem fun {p q} hp hq hne => ?_⟩
  · obtain ⟨s, hs⟩ := h.session_of_mem hp
    rw [h.held_eq hs, List.nodup_cons, Option.mem_toList]
    refine ⟨h.peer_ne_sock hs, ?_⟩
    cases s.peer <;> simp
  · obtain ⟨s, hs⟩ := h.session_of_mem hp
    obtain ⟨t, ht⟩ := h.session_of_mem hq
    intro b hb hb'
    exact hne (h.uses_inj hs ht ((h.mem_held hs).1 hb) ((h.mem_held ht).1 hb'))

/-- The open bufferevents are those that are held. -/
theorem Represents.open_iff (h : Represents w B) :
    b ∈ w.cm.processors.flatMap w.held ↔ (w.bevs.get b).isSome = true := by
  rw [List.mem_flatMap]
  refine ⟨fun ⟨p, hp, hb⟩ => ?_, fun hb => ?_⟩
  · obtain ⟨s, hs⟩ := h.session_of_mem hp
    obtain ⟨X, hX, -⟩ := h.owner hs ((h.mem_held hs).1 hb)
    rw [hX]
    rfl
  · obtain ⟨X, hX⟩ := Option.isSome_iff_exists.1 hb
    obtain ⟨p, s, hs, hu⟩ := h.socket hX
    exact ⟨p, h.mem_processors hs, (h.mem_held hs).2 (hu.imp (·.1) (·.1))⟩

theorem Represents.count_held (h : Represents w B) {l : List ProxyPtr}
    (hl : ∀ p ∈ l, p ∈ w.cm.processors) :
    (l.flatMap w.held).length = l.length + l.countP w.forwards := by
  induction l with
  | nil => rfl
  | cons p l ih =>
    obtain ⟨s, hs⟩ := h.session_of_mem (hl p List.mem_cons_self)
    rw [List.flatMap_cons, List.length_append, ih fun q hq => hl q (List.mem_cons_of_mem p hq),
      h.length_held hs, List.length_cons, List.countP_cons]
    omega

/-- **Nothing leaks**: in every reachable state the live proxies are those in `_processors`, and the
open bufferevents are one for each of them and one for each of their forwarders. -/
theorem objects_counted (h : Reachable E w) :
    w.proxies.keys.Perm w.cm.processors ∧
      w.bevs.keys.length = w.cm.processors.length + w.cm.processors.countP w.forwards := by
  obtain ⟨B, hB⟩ := reachable_board h
  refine ⟨?_, ?_⟩
  · refine Heap.keys_perm hB.nodup fun p => ?_
    rw [hB.processors, hB.proxies, Option.isSome_map]
  · rw [(Heap.keys_perm hB.nodup_held fun b => hB.open_iff).length_eq]
    exact hB.count_held fun p hp => hp

end

/-- Two clients, one of them with a forwarder, and one that has left. -/
theorem objects_counted_two : ∃ w, Run (.single 1 (['h'], 80)) .init [.accept ⟨[], 1⟩,
      .accept ⟨[], 2⟩, .accept ⟨[], 3⟩, .read 1 (header 1), .event 0 BEV_EVENT_EOF] w ∧
    w.bevs.keys = [1, 2, 3] ∧ w.proxies.keys.Perm w.cm.processors ∧
      w.bevs.keys.length = w.cm.processors.length + w.cm.processors.countP w.forwards := by
  obtain ⟨w, h, hk⟩ : ∃ w, Run (.single 1 (['h'], 80)) .init [.accept ⟨[], 1⟩, .accept ⟨[], 2⟩,
      .accept ⟨[], 3⟩, .read 1 (header 1), .event 0 BEV_EVENT_EOF] w ∧ w.bevs.keys = [1, 2, 3] :=
    ⟨_, rfl, by decide⟩
  exact ⟨w, h, hk, objects_counted ⟨_, h⟩⟩

end TcpProxy
