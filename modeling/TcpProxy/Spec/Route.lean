import TcpProxy.Spec.Log

/-!
# Where the clients of a board are led

`Board.Routed`: a client that has a backend has it by its header. Every signal keeps it
(`routed_step`), as it keeps a client that is gone away (`step_stays_gone`).
-/

namespace TcpProxy

theorem Session.backend_of_begin {s : Session} (h : s.state = .BEGIN) : s.backend = none := by
  obtain ⟨short, hst⟩ := stage_of_begin h
  simp [backend, hst]

/-- A client without a backend has not sent its header. -/
theorem Session.of_backend_none {s : Session} (h : s.backend = none) :
    s.state = .BEGIN ∧ s.fromClient.length < 12 := by
  rcases s with ⟨c, b, stage⟩
  cases stage with
  | greeting buf short => exact ⟨rfl, short⟩
  | dialing | relaying => cases h

/-- The forwarder of a client is bound to its backend. -/
theorem Session.fwd_of_backend {s : Session} {host : Config.Host} (p : ProxyPtr)
    (h : s.backend = some host) : ∃ f, s.fwd p = some f ∧ f.host = host.1 ∧ f.port = host.2 := by
  rcases s with ⟨c, b, stage⟩
  cases stage with
  | greeting => cases h
  | dialing | relaying =>
    obtain rfl := Option.some.inj h
    exact ⟨_, rfl, rfl, rfl⟩

namespace Board

def Routed (hosts : Config.Hosts) (B : Board) : Prop :=
  ∀ p s host, B.sessions.get p = some s → s.backend = some host →
    12 ≤ s.fromClient.length ∧ route hosts s.fromClient = some (s.id, host)

variable {hosts : Config.Hosts} {B : Board} {sig : Signal} {p : ProxyPtr} {s : Session}

theorem routed_init : Routed hosts init := nofun

theorem routed_step (sig : Signal) (h : Routed hosts B) : Routed hosts (B.step hosts sig) := by
  intro q u host hu hb
  cases step_origin hu with
  | same hs => exact h q u host hs hb
  | goes hs hk hin =>
    -- the bytes behind the header do not matter
    obtain ⟨hl, hr⟩ := h q _ host hs (hk.backend ▸ hb)
    rw [hin, hk.id, route_append hosts hl, List.length_append]
    exact ⟨by omega, hr⟩
  | dials hs hg hbs ha hu =>
    subst hu
    obtain ⟨-, chunk, rfl, hl, hr⟩ := Signal.admits_iff.1 ha
    obtain rfl := Option.some.inj hb
    rw [Signal.sent, if_pos rfl] at hbs
    subst hbs
    exact ⟨hl, hr⟩
  | joins _ _ hu =>
    subst hu
    cases hb

/-- A client that is gone does not come back, and makes no more calls. -/
theorem step_stays_gone (hosts : Config.Hosts) (sig : Signal) (hs : B.sessions.get p = none)
    (hp : p < B.sessions.next) :
    (B.step hosts sig).sessions.get p = none ∧
      callsOf p (B.step hosts sig).log = callsOf p B.log := by
  constructor
  · rcases hu : (B.step hosts sig).sessions.get p with _ | u
    · rfl
    · cases step_origin hu with
      | same h => rw [hs] at h; cases h
      | goes h => rw [hs] at h; cases h
      | dials h => rw [hs] at h; cases h
      | joins _ hq => exact absurd hq (Nat.ne_of_lt hp)
  · rcases (step_change hosts B sig).log with hl | ⟨q, t, id, host, d, ht, -, -, hl⟩
    · rw [hl]
    · have hne : p ≠ q := by
        rintro rfl
        rw [hs] at ht
        cases ht
      rw [hl, callsOf_register q id host hne]

/-- The bytes of a client leave the index as it is unless they lead to a backend. -/
theorem step_index (hosts : Config.Hosts) {chunk : List UInt8} {d : Bool}
    (hsig : sig = .fromClient p chunk d) :
    (B.step hosts sig).index = B.index ∨
      ∃ s id host, B.sessions.get p = some s ∧ sig.Admits hosts p s id host d := by
  have hc := step_change hosts B sig
  generalize B.step hosts sig = B' at hc
  subst hsig
  cases hc with
  | same | goes => exact .inl rfl
  | dials hs _ _ ha hp =>
    obtain rfl := Option.some.inj hp
    obtain rfl : d = true := ha.2.2.2.2
    exact .inr ⟨_, _, _, hs, ha⟩
  | fails hs _ ha hp =>
    obtain rfl := Option.some.inj hp
    obtain rfl : d = false := ha.2.2.2.2
    exact .inr ⟨_, _, _, hs, ha⟩
  | leaves hs he =>
    -- a client that is refused has no id yet
    have hid := Session.id_of_peer_none (Session.peer_of_begin he.2.1)
    left
    rw [leave_index, hid]
    rfl
  | joins h => cases h
  | closes h => cases h
  | closesAll h => cases h

end Board

end TcpProxy
