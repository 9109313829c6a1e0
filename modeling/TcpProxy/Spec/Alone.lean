import TcpProxy.Spec.Growth

/-!
# What a signal does to one client

`Session.move`: the session that a signal about a client leaves it in, `none` where the client
leaves. It depends on the client's own session and the signal alone (`Board.step_move`), and not on
which client it is or which numbers its sockets have (`move_onto`, `move_relocate`).
-/

namespace TcpProxy

/-- The signal as one about the client `q`; an attempt to connect is started. -/
def Signal.onto (q : ProxyPtr) : Signal → Signal
  | .fromClient _ chunk _ => .fromClient q chunk true
  | .fromBackend _ chunk => .fromBackend q chunk
  | .toClient _ n => .toClient q n
  | .toBackend _ n => .toBackend q n
  | .clientGone _ => .clientGone q
  | .answered _ => .answered q
  | .backendGone _ => .backendGone q
  | sig => sig

theorem Signal.subject_onto {p q : ProxyPtr} {sig : Signal} (h : sig.subject = some p) :
    (sig.onto q).subject = some q := by
  cases sig with
  | join | close | closeAll | idle => cases h
  | _ => rfl

namespace Session

/-- The client's bytes; `fresh` is the socket that is opened if they lead to a backend. -/
def receive (hosts : Config.Hosts) (fresh : BevPtr) (dialed : Bool) (chunk : List UInt8)
    (s : Session) : Option Session :=
  match s.stage with
  | .greeting buf _ =>
    if h : (buf ++ chunk).length < 12 then some { s with stage := .greeting (buf ++ chunk) h }
    else
      match route hosts (buf ++ chunk) with
      | none => none
      | some (id, host) => if dialed then some (s.dial id host fresh (buf ++ chunk)) else none
  | .dialing id host peer failed parked down =>
    some { s with stage := .dialing id host peer failed (parked ++ chunk) down }
  | .relaying id host peer up down =>
    some { s with stage := .relaying id host peer (up.push chunk) down }

/-- Its backend's socket closes or fails. -/
def lose (s : Session) : Option Session :=
  match s.stage with
  | .greeting .. => some s
  | .dialing id host peer _ parked down =>
    some { s with stage := .dialing id host peer true parked down }
  | .relaying .. => none

/-- The session that a signal about the client leaves it in. -/
def move (hosts : Config.Hosts) (fresh : BevPtr) (s : Session) : Signal → Option Session
  | .fromClient _ chunk dialed => s.receive hosts fresh dialed chunk
  | .fromBackend _ chunk => some (s.fromBackend chunk)
  | .toClient _ n => some (s.toClient n)
  | .toBackend _ n => some (s.toBackend n)
  | .clientGone _ => none
  | .answered _ => some s.answered
  | .backendGone _ => s.lose
  | _ => some s

/-- The session on the sockets `b` and `c`. -/
def relocate (b c : BevPtr) (s : Session) : Session where
  connection := s.connection
  sock := b
  stage :=
    match s.stage with
    | .greeting buf short => .greeting buf short
    | .dialing id host _ failed parked down => .dialing id host c failed parked down
    | .relaying id host _ up down => .relaying id host c up down

section
variable {hosts : Config.Hosts} {s t : Session} {sig : Signal} {fresh b c : BevPtr}

theorem relocate_peer : (s.relocate b c).peer = s.peer.map fun _ => c := by
  rcases s with ⟨_, _, _ | _ | _⟩ <;> rfl

theorem receive_dialed {chunk : List UInt8} {d : Bool}
    (h : s.receive hosts fresh d chunk = some t) : s.receive hosts fresh true chunk = some t := by
  cases d
  · unfold receive at h ⊢
    rcases hst : s.stage with ⟨buf, short⟩ | _ | _ <;> simp only [hst] at h ⊢
    · split at h
      · rename_i hl; rw [dif_pos hl]; exact h
      · split at h <;> cases h
    · exact h
    · exact h
  · exact h

/-- Which client it is does not matter. -/
theorem move_onto (q : ProxyPtr) (h : s.move hosts fresh sig = some t) :
    s.move hosts fresh (sig.onto q) = some t := by
  cases sig with
  | fromClient p chunk d => exact receive_dialed h
  | _ => exact h

/-- Nor which sockets it has. -/
theorem move_relocate {k : BevPtr} (hk : s.peer = none → k = c) :
    (s.relocate b c).move hosts k sig = (s.move hosts fresh sig).map (relocate b c) := by
  rcases s with ⟨connection, sock, stage⟩
  cases stage with
  | greeting buf short =>
    obtain rfl := hk rfl
    cases sig with
    | fromClient p chunk d =>
      simp only [move, receive, relocate]
      split
      · rfl
      · split
        · rfl
        · split <;> rfl
    | _ => rfl
  | dialing | relaying => cases sig <;> rfl

end

end Session

namespace Board

variable {hosts : Config.Hosts} {B : Board} {sig : Signal} {p : ProxyPtr} {s t : Session}

theorem fromClient_get (hs : B.sessions.get p = some s) (d : Bool) (chunk : List UInt8) :
    (fromClient hosts d B p s chunk).sessions.get p = s.receive hosts B.nextSock d chunk := by
  unfold fromClient Session.receive
  rcases hst : s.stage with ⟨buf, short⟩ | _ | _ <;> simp only []
  · split
    · exact Heap.get_set_self hs _
    · unfold dispatch
      rcases hr : route hosts (buf ++ chunk) with _ | ⟨id, host⟩
      · exact Heap.get_free_self _ _
      · cases d
        · exact Heap.get_free_self _ _
        · exact Heap.get_set_self hs _
  · exact Heap.get_set_self hs _
  · exact Heap.get_set_self hs _

/-- **A signal about a client** leaves it in a session that depends on its own one alone. -/
theorem step_move (hsub : sig.subject = some p) (hs : B.sessions.get p = some s) :
    (B.step hosts sig).sessions.get p = s.move hosts B.nextSock sig := by
  cases sig with
  | fromClient q chunk d =>
    obtain rfl := Option.some.inj hsub
    rw [step, onClient_some hs]
    exact fromClient_get hs d chunk
  | backendGone q =>
    obtain rfl := Option.some.inj hsub
    rw [step, onClient_some hs, backendGone, Session.move, Session.lose]
    rcases hst : s.stage with _ | _ | _ <;> simp only []
    · exact hs
    · exact Heap.get_set_self hs _
    · exact Heap.get_free_self _ _
  | clientGone q =>
    obtain rfl := Option.some.inj hsub
    rw [step, onClient_some hs]
    exact Heap.get_free_self _ _
  | fromBackend | toClient | toBackend | answered =>
    obtain rfl := Option.some.inj hsub
    rw [step, onClient_some hs]
    exact Heap.get_set_self hs _
  | _ => cases hsub

theorem step_next (hsub : sig.subject = some p) :
    (B.step hosts sig).sessions.next = B.sessions.next := by
  have hc := step_change hosts B sig
  generalize B.step hosts sig = B' at hc
  cases hc with
  | same | goes | dials | leaves | fails => rfl
  | joins h | closes h | closesAll h => rw [h] at hsub; cases hsub

theorem step_nextSock (hsub : sig.subject = some p)
    (ht : (B.step hosts sig).sessions.get p = some t) (hpeer : t.peer = none) :
    (B.step hosts sig).nextSock = B.nextSock := by
  have hc := step_change hosts B sig
  generalize B.step hosts sig = B' at hc ht
  cases hc with
  | same | goes | leaves => rfl
  | dials hs _ _ _ hp =>
    obtain rfl := Option.some.inj (hsub.symm.trans hp)
    rw [put_sessions, register_sessions, Heap.get_set_self hs] at ht
    obtain rfl := Option.some.inj ht
    cases hpeer
  | fails _ _ _ hp =>
    obtain rfl := Option.some.inj (hsub.symm.trans hp)
    exact absurd ht (leave_get _ _ _)
  | joins h | closes h | closesAll h => rw [h] at hsub; cases hsub

theorem step_peer {k : BevPtr} (hs : B.sessions.get p = some s)
    (ht : (B.step hosts sig).sessions.get p = some t) (hp : s.peer = none)
    (hk : t.peer = some k) : k = B.nextSock := by
  cases step_origin ht with
  | same h =>
    obtain rfl := Option.some.inj (hs.symm.trans h)
    rw [hp] at hk
    cases hk
  | goes h hkeeps =>
    obtain rfl := Option.some.inj (hs.symm.trans h)
    rw [hkeeps.peer, hp] at hk
    cases hk
  | dials _ _ _ _ hu =>
    subst hu
    exact (Option.some.inj hk).symm
  | joins _ _ hu =>
    subst hu
    cases hk

end Board

end TcpProxy
