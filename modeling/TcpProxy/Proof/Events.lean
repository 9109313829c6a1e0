import TcpProxy.Proof.Refine
import TcpProxy.Spec.Index

/-!
# What an event means for a client

The events that end a client's connection by itself (`ClientCloses`, `BackendCloses`, `Rejected`,
`Undialed`) and the one that tells that its backend cannot be reached (`ConnectFails`), read off
the event and the state before it; and what each is as a signal to the board.
-/

namespace TcpProxy

open Libevent

/-- The socket of the client `p` reports that the client has closed or that it has failed. -/
def ClientCloses (w : World) (p : ProxyPtr) : Event → Prop
  | .event b events =>
    (w.bevs.get b).map Bufferevent.ctx = some (.proxy p) ∧ isClosed events = true
  | _ => False

/-- The socket towards the backend of the client `p` reports that the backend has closed or that it
has failed. -/
def BackendLost (w : World) (p : ProxyPtr) : Event → Prop
  | .event b events =>
    (w.bevs.get b).map Bufferevent.ctx = some (.forwarder p) ∧ isConnected events = false ∧
      isClosed events = true
  | _ => False

/-- The proxy of the client `p` is in the state `st`. -/
def InState (w : World) (p : ProxyPtr) (st : State) : Prop :=
  ∃ px, w.proxies.get p = some px ∧ px.state = st

/-- The backend of the client `p`, once connected, closes or fails. -/
def BackendCloses (w : World) (p : ProxyPtr) (e : Event) : Prop :=
  BackendLost w p e ∧ InState w p .FWD

/-- The connect to the backend of the client `p` fails after it was started. -/
def ConnectFails (w : World) (p : ProxyPtr) (e : Event) : Prop :=
  BackendLost w p e ∧ InState w p .CONNECTING

/-- The client `p` delivers the rest of its first 12 bytes, which lead to `r`. -/
def Completes (E : Env) (w : World) (p : ProxyPtr) (r : Option (Int × Config.Host)) : Event → Prop
  | .read b chunk => ∃ X, w.bevs.get b = some X ∧ X.ctx = .proxy p ∧ InState w p .BEGIN ∧
      12 ≤ (X.input ++ chunk).length ∧ route E.config (X.input ++ chunk) = r
  | _ => False

/-- The header of the client `p` is complete, and it leads nowhere. -/
def Rejected (E : Env) (w : World) (p : ProxyPtr) (e : Event) : Prop := Completes E w p none e

/-- The header of the client `p` is complete, it leads to a backend as the client `id`, and
`connect` returns false. -/
def Undialed (E : Env) (w : World) (p : ProxyPtr) (id : Int) (e : Event) : Prop :=
  (∃ host, Completes E w p (some (id, host)) e) ∧ E.connectRc w.bevs.next ≠ 0

/-! ## As signals -/

section
variable {E : Env} {w : World} {B : Board} {p : ProxyPtr} {s : Session} {e : Event}

theorem label_clientGone : label E w e = .clientGone p ↔ ClientCloses w p e := by
  constructor
  · intro h
    have hm := label_means E w e
    rw [h] at hm
    cases hm with
    | clientGone hX hp hc => exact ⟨by rw [hX, Option.map_some, hp], hc⟩
  · intro h
    cases e with
    | event b events => simp only [label, h.1, if_pos h.2]
    | _ => exact h.elim

theorem label_backendGone : label E w e = .backendGone p ↔ BackendLost w p e := by
  constructor
  · intro h
    have hm := label_means E w e
    rw [h] at hm
    cases hm with
    | backendGone hX hp hn hc => exact ⟨by rw [hX, Option.map_some, hp], hn, hc⟩
  · intro h
    cases e with
    | event b events =>
      simp only [label, h.1, h.2.1, if_pos h.2.2, Bool.false_eq_true, ↓reduceIte]
    | _ => exact h.elim

theorem label_fromClient {chunk : List UInt8} {d : Bool} :
    label E w e = .fromClient p chunk d ↔ d = decide (E.connectRc w.bevs.next = 0) ∧
      ∃ b X, e = .read b chunk ∧ w.bevs.get b = some X ∧ X.ctx = .proxy p := by
  constructor
  · intro h
    have hm := label_means E w e
    rw [h] at hm
    cases hm with
    | fromClient hX hp => exact ⟨rfl, _, _, rfl, hX, hp⟩
  · rintro ⟨rfl, b, X, rfl, hX, hp⟩
    simp only [label, hX, Option.map_some, hp]

theorem label_close {k : Int} : label E w e = .close k ↔ e = .control ⟨.CLOSE, k⟩ := by
  constructor
  · intro h
    have hm := label_means E w e
    rw [h] at hm
    cases hm with
    | close => rfl
  · rintro rfl
    rfl

theorem label_closeAll : label E w e = .closeAll ↔ ∃ id, e = .control ⟨.CLOSE_ALL, id⟩ := by
  constructor
  · intro h
    have hm := label_means E w e
    rw [h] at hm
    cases hm with
    | closeAll k => exact ⟨k, rfl⟩
  · rintro ⟨id, rfl⟩
    rfl

theorem inState_iff (h : Represents w B) (hs : B.sessions.get p = some s) (st : State) :
    InState w p st ↔ s.state = st := by
  simp [InState, h.object hs]

theorem Represents.session_of_completes {r : Option (Int × Config.Host)} (h : Represents w B)
    (hc : Completes E w p r e) : ∃ s, B.sessions.get p = some s := by
  cases e with
  | read b chunk =>
    obtain ⟨X, -, -, ⟨px, hpx, -⟩, -⟩ := hc
    exact h.session hpx
  | _ => exact hc.elim

theorem completes_iff {r : Option (Int × Config.Host)} (h : Represents w B)
    (hs : B.sessions.get p = some s) : Completes E w p r e ↔
      s.state = .BEGIN ∧ ∃ chunk, label E w e =
          .fromClient p chunk (decide (E.connectRc w.bevs.next = 0)) ∧
        12 ≤ (s.parked ++ chunk).length ∧ route E.config (s.parked ++ chunk) = r := by
  have hread : ∀ b X, w.bevs.get b = some X → X.ctx = .proxy p → X = s.clientBev p := by
    intro b X hX hctx
    obtain ⟨q, t, ht, ⟨-, rfl⟩ | ⟨-, rfl⟩⟩ := h.socket hX
    · obtain rfl : q = p := by simpa using hctx
      rw [Option.some.inj (hs.symm.trans ht)]
    · cases hctx
  constructor
  · intro hc
    cases e with
    | read b chunk =>
      obtain ⟨X, hX, hctx, hst, hl, hr⟩ := hc
      have hi : X.input = s.parked := by rw [hread b X hX hctx]; rfl
      rw [hi] at hl hr
      exact ⟨(inState_iff h hs _).1 hst, chunk,
        label_fromClient.2 ⟨rfl, b, X, rfl, hX, hctx⟩, hl, hr⟩
    | _ => exact hc.elim
  · rintro ⟨hst, chunk, hlab, hl, hr⟩
    obtain ⟨-, b, X, rfl, hX, hctx⟩ := label_fromClient.1 hlab
    have hi : X.input = s.parked := by rw [hread b X hX hctx]; rfl
    exact ⟨X, hX, hctx, (inState_iff h hs _).2 hst, by rw [hi]; exact hl, by rw [hi]; exact hr⟩

/-- The events that end a client's connection by itself are the signals that do. -/
theorem ends_iff (h : Represents w B) (hs : B.sessions.get p = some s) :
    (label E w e).Ends E.config p s ↔
      ClientCloses w p e ∨ BackendCloses w p e ∨ Rejected E w p e := by
  rw [Signal.ends_iff, label_clientGone, label_backendGone, BackendCloses, Rejected,
    completes_iff h hs, inState_iff h hs]
  refine or_congr_right (or_congr_right (and_congr_right fun _ => exists_congr fun chunk => ?_))
  constructor
  · rintro ⟨d, hd, hr⟩
    obtain ⟨rfl, -⟩ := label_fromClient.1 hd
    exact ⟨hd, hr⟩
  · exact fun hr => ⟨_, hr⟩

theorem admits_iff {id : Int} {host : Config.Host} {d : Bool} (h : Represents w B)
    (hs : B.sessions.get p = some s) : (label E w e).Admits E.config p s id host d ↔
      Completes E w p (some (id, host)) e ∧ d = decide (E.connectRc w.bevs.next = 0) := by
  rw [Signal.admits_iff, completes_iff h hs]
  constructor
  · rintro ⟨hst, chunk, hd, hr⟩
    obtain ⟨rfl, -⟩ := label_fromClient.1 hd
    exact ⟨⟨hst, chunk, hd, hr⟩, rfl⟩
  · rintro ⟨⟨hst, chunk, hd, hr⟩, rfl⟩
    exact ⟨hst, chunk, hd, hr⟩

theorem connectFails_iff (h : Represents w B) (hs : B.sessions.get p = some s) :
    ConnectFails w p e ↔ label E w e = .backendGone p ∧ s.state = .CONNECTING := by
  rw [ConnectFails, label_backendGone, inState_iff h hs]

theorem reachable_filed (h : Reachable E w) : ∃ B, Represents w B ∧ B.Filed :=
  reachable_represents Board.Filed Board.filed_init (fun _ sig => Board.filed_step sig) h

end

end TcpProxy
