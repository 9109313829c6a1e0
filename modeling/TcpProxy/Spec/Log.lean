import TcpProxy.Spec.Change

/-!
# The calls of a board's clients

`Board.Logged`: a connected client has made exactly the calls of its session, one report of its id
and one connect once its header has led to a backend, and before that none (`Session.calls`).
Every signal keeps it (`logged_step`), and a signal adds calls of its own client only, when that
client's header leads to a backend (`Change.log`).
-/

namespace TcpProxy

/-- The calls that a client in the session `s` has made. -/
def Session.calls (s : Session) (p : ProxyPtr) : List Call :=
  match s.backend with
  | none => []
  | some host => [Call.idRecv p s.id, Call.connect p host]

/-- The calls of the client `p`. -/
def callsOf (p : ProxyPtr) (log : List Call) : List Call := log.filter fun c => c.caller = p

theorem callsOf_append (p : ProxyPtr) (l m : List Call) :
    callsOf p (l ++ m) = callsOf p l ++ callsOf p m := List.filter_append l m

theorem mem_callsOf {p : ProxyPtr} {c : Call} {log : List Call} :
    c ∈ callsOf p log ↔ c ∈ log ∧ c.caller = p := by simp [callsOf]

/-- The calls of a client that is given a backend. -/
theorem callsOf_dial (p q : ProxyPtr) (id : Int) (host : Config.Host) :
    callsOf q [Call.idRecv p id, Call.connect p host] =
      if q = p then [Call.idRecv p id, Call.connect p host] else [] := by
  split
  · rename_i e
    simp [callsOf, Call.caller, e]
  · rename_i e
    simp [callsOf, Call.caller, Ne.symm e]

theorem Session.backend_isSome (s : Session) : s.backend.isSome = s.peer.isSome := by
  rcases s with ⟨_, _, _ | _ | _⟩ <;> rfl

theorem Session.Keeps.calls {s t : Session} (h : s.Keeps t) (p : ProxyPtr) :
    t.calls p = s.calls p := by rw [Session.calls, Session.calls, h.backend, h.id]

namespace Board

structure Logged (B : Board) : Prop where
  calls : ∀ p s, B.sessions.get p = some s → callsOf p B.log = s.calls p
  old : ∀ c ∈ B.log, c.caller < B.sessions.next

variable {hosts : Config.Hosts} {B B' : Board} {sig : Signal} {p q : ProxyPtr} {s : Session}

theorem logged_init : init.Logged := ⟨nofun, nofun⟩

/-- A client has reported the id of its session, once it has one. -/
theorem Logged.reported (h : Logged B) (hs : B.sessions.get p = some s) (k : Int) :
    Call.idRecv p k ∈ B.log ↔ s.peer.isSome ∧ s.id = k := by
  have : Call.idRecv p k ∈ B.log ↔ Call.idRecv p k ∈ s.calls p := by
    rw [← h.calls p s hs, mem_callsOf]
    simp [Call.caller]
  rw [this, ← s.backend_isSome, Session.calls]
  rcases s.backend with _ | host
  · simp
  · simp [eq_comm]

/-- A signal adds no calls, or those of its client, whose header leads to a backend. -/
theorem Change.log (hc : Change hosts B sig B') :
    B'.log = B.log ∨ ∃ p s id host d, B.sessions.get p = some s ∧ s.state = .BEGIN ∧
      sig.Admits hosts p s id host d ∧
      B'.log = B.log ++ [Call.idRecv p id, Call.connect p host] := by
  cases hc with
  | dials hs hg _ ha => exact .inr ⟨_, _, _, _, _, hs, hg, ha, rfl⟩
  | fails hs hg ha => exact .inr ⟨_, _, _, _, _, hs, hg, ha, rfl⟩
  | _ => exact .inl rfl

theorem Change.next_le (hc : Change hosts B sig B') : B.sessions.next ≤ B'.sessions.next := by
  cases hc with
  | joins => unfold join; split <;> simp
  | closes => simp [close]
  | _ => exact Nat.le_refl _

theorem callsOf_register (p : ProxyPtr) (id : Int) (host : Config.Host) (hq : q ≠ p) :
    callsOf q (B.log ++ [Call.idRecv p id, Call.connect p host]) = callsOf q B.log := by
  rw [callsOf_append, callsOf_dial, if_neg hq, List.append_nil]

theorem Change.calls (hc : Change hosts B sig B') (h : Logged B) {u : Session}
    (hu : B'.sessions.get q = some u) : callsOf q B'.log = u.calls q := by
  cases hc with
  | same => exact h.calls q u hu
  | goes hs hk =>
    rw [put_sessions, Heap.get_set_of hs] at hu
    split at hu
    · rename_i e
      subst e
      obtain rfl := Option.some.inj hu
      rw [hk.calls]
      exact h.calls q _ hs
    · exact h.calls q u hu
  | @dials p s id host bs hs hg =>
    rw [put_sessions, register_sessions, Heap.get_set_of hs] at hu
    split at hu
    · rename_i e
      subst e
      obtain rfl := Option.some.inj hu
      have hb : s.backend = none := by
        rw [← Option.not_isSome_iff_eq_none, s.backend_isSome, Session.peer_of_begin hg]
        nofun
      rw [put_log, register_log, callsOf_append, callsOf_dial, if_pos rfl, h.calls q s hs,
        Session.calls, hb]
      rfl
    · rw [put_log, register_log, callsOf_register _ _ _ ‹_›]
      exact h.calls q u hu
  | leaves hs =>
    rw [leave_sessions, Heap.get_free] at hu
    split at hu
    · cases hu
    · exact h.calls q u hu
  | fails hs =>
    rw [leave_sessions, register_sessions, Heap.get_free] at hu
    split at hu
    · cases hu
    · rw [leave_log, register_log, callsOf_register _ _ _ ‹_›]
      exact h.calls q u hu
  | joins hj =>
    rcases hr : B.running with _ | _
    · rw [join_stopped hr] at hu ⊢
      rw [Heap.get_alloc_free] at hu
      exact h.calls q u hu
    · rw [join_running hr] at hu ⊢
      rw [Heap.get_alloc] at hu
      split at hu
      · rename_i e
        obtain rfl := Option.some.inj hu
        -- nobody has made a call at an address yet to be given out
        refine List.filter_eq_nil_iff.2 fun c hc he => ?_
        have := h.old c hc
        rw [of_decide_eq_true he, e] at this
        exact Nat.lt_irrefl _ this
      · exact h.calls q u hu
  | closes =>
    rw [close_get] at hu
    split at hu
    · cases hu
    · exact h.calls q u hu
  | closesAll => cases hu

theorem logged_step (sig : Signal) (h : Logged B) : Logged (B.step hosts sig) := by
  have hc := step_change hosts B sig
  refine ⟨fun q u hu => hc.calls h hu, fun c hm => Nat.lt_of_lt_of_le ?_ hc.next_le⟩
  rcases hc.log with hl | ⟨p, s, id, host, d, hs, -, -, hl⟩
  · exact h.old c (hl ▸ hm)
  · rw [hl, List.mem_append] at hm
    rcases hm with hm | hm
    · exact h.old c hm
    · have : c.caller = p := by
        simp only [List.mem_cons, List.not_mem_nil, or_false] at hm
        rcases hm with rfl | rfl <;> rfl
      exact this ▸ Heap.lt_next hs

end Board

end TcpProxy
