import TcpProxy.Proof.Events

/-!
# What an event does not touch

An event of one client's sockets, and a message that closes an id, leave the connections of all
other clients as they are (`next_untouched`), also when the index holds entries of clients that are
gone.
-/

namespace TcpProxy

open Libevent

/-- The connection of the client `q` is in `w'` what it was in `w`: its proxy with its state, id
and forwarder, and its bufferevents with what is in them. -/
structure Untouched (w w' : World) (q : ProxyPtr) : Prop where
  kept : q ∈ w'.cm.processors
  object : w'.proxies.get q = w.proxies.get q
  bevs : ∀ b X, w.bevs.get b = some X → X.ctx.owner = q → w'.bevs.get b = some X

/-- The event is reported for a socket of the client `p`. -/
def About (w : World) (p : ProxyPtr) : Event → Prop
  | .read b _ | .write b _ | .event b _ => (w.bevs.get b).map (·.ctx.owner) = some p
  | _ => False

section
variable {E : Env} {w w' : World} {B B' : Board} {p q : ProxyPtr} {s : Session} {e : Event}
  {k : Int}

theorem Represents.untouched (h : Represents w B) (h' : Represents w' B')
    (hs : B.sessions.get q = some s) (hs' : B'.sessions.get q = some s) : Untouched w w' q where
  kept := h'.mem_processors hs'
  object := (h'.object hs').trans (h.object hs).symm
  bevs b X hX hq := by
    obtain ⟨p, t, ht, ⟨rfl, rfl⟩ | ⟨hb, rfl⟩⟩ := h.socket hX
    · obtain rfl : p = q := hq
      obtain rfl := Option.some.inj (hs.symm.trans ht)
      exact h'.client p s hs'
    · obtain rfl : p = q := hq
      obtain rfl := Option.some.inj (hs.symm.trans ht)
      exact h'.backend p s b hs' hb

theorem Represents.untouched_close (h : Represents w B) (hF : B.Filed)
    (h' : Represents w' (B.close k)) (hq : q ∈ w.cm.processors)
    (hid : ∀ px, w.proxies.get q = some px → px.id ≠ k) : Untouched w w' q := by
  obtain ⟨s, hs⟩ := h.session_of_mem hq
  have hother : (k, q) ∉ B.index := fun hm => hid _ (h.object hs) (hF.entry _ hm s hs).2
  exact h.untouched h' hs ((Board.close_other hother).trans hs)

theorem label_subject (h : About w p e) :
    (label E w e).subject = some p ∨ label E w e = .idle := by
  have hown : ∀ b X, (w.bevs.get b).map (·.ctx.owner) = some p → w.bevs.get b = some X →
      X.ctx.owner = p := fun b X hb hX => by
    rw [hX] at hb
    exact Option.some.inj hb
  have hm := label_means E w e
  generalize label E w e = sig at hm
  cases hm with
  | idle => exact .inr rfl
  | accept | close | closeAll => exact h.elim
  | fromClient hX hp | fromBackend hX hp | toClient hX hp | toBackend hX hp =>
    obtain rfl := (congrArg Ctx.owner hp).symm.trans (hown _ _ h hX)
    exact .inl rfl
  | clientGone hX hp | answered hX hp | backendGone hX hp =>
    obtain rfl := (congrArg Ctx.owner hp).symm.trans (hown _ _ h hX)
    exact .inl rfl

/-- **One client's end and one close touch no other client.** -/
theorem next_untouched (h : Reachable E w) (hn : next E w e = some w') :
    (∀ k, e = .control ⟨.CLOSE, k⟩ → ∀ q ∈ w.cm.processors,
      (∀ px, w.proxies.get q = some px → px.id ≠ k) → Untouched w w' q) ∧
    (∀ p, About w p e → ∀ q ∈ w.cm.processors, q ≠ p → Untouched w w' q) := by
  obtain ⟨B, hB, hF⟩ := reachable_filed h
  have hB' := next_refines hB hn
  constructor
  · rintro k rfl q hq hid
    exact hB.untouched_close hF hB' hq hid
  · intro p hp q hq hne
    obtain ⟨s, hs⟩ := hB.session_of_mem hq
    refine hB.untouched hB' hs ?_
    rcases label_subject (E := E) hp with hsub | hidle
    · exact (Board.step_other hsub hne).trans hs
    · rw [hidle]
      exact hs

end

theorem next_untouched_two : ∃ w w',
    Run (.single 1 (['h'], 80)) .init [.accept ⟨[], 1⟩, .accept ⟨[], 2⟩] w ∧
      next (.single 1 (['h'], 80)) w (.event 0 BEV_EVENT_EOF) = some w' ∧
      w.cm.processors = [1, 0] ∧ w'.cm.processors = [1] ∧ Untouched w w' 1 :=
  ⟨_, _, rfl, rfl, rfl, rfl,
    (next_untouched (E := .single 1 (['h'], 80)) ⟨[.accept ⟨[], 1⟩, .accept ⟨[], 2⟩], rfl⟩
      (e := .event 0 BEV_EVENT_EOF) rfl).2 0 rfl 1 (by decide) (by decide)⟩

end TcpProxy
