import TcpProxy.Spec.Change

/-!
# What a session never loses

From one signal to the next a session keeps its sockets, and its streams only grow
(`Board.step_grows`): what the client has sent, what has been put in either outbox and what either
socket has taken from it.
-/

namespace TcpProxy

namespace Session

/-- `t` is the session `s` some time later. -/
structure Grows (s t : Session) : Prop where
  connection : t.connection = s.connection
  sock : t.sock = s.sock
  peer : ∀ b, s.peer = some b → t.peer = some b
  fromClient : s.fromClient <+: t.fromClient
  up : s.up.Le t.up
  down : s.down.Le t.down

variable {s t u : Session} {p : ProxyPtr}

theorem Grows.refl (s : Session) : s.Grows s :=
  ⟨rfl, rfl, fun _ h => h, List.prefix_refl _, .refl _, .refl _⟩

theorem Grows.trans (h : s.Grows t) (h' : t.Grows u) : s.Grows u where
  connection := h'.connection.trans h.connection
  sock := h'.sock.trans h.sock
  peer b hb := h'.peer b (h.peer b hb)
  fromClient := h.fromClient.trans h'.fromClient
  up := h.up.trans h'.up
  down := h.down.trans h'.down

/-- The client's bufferevent only grows. -/
theorem Grows.clientBev (h : s.Grows t) (p : ProxyPtr) : (s.clientBev p).Grows (t.clientBev p) :=
  ⟨rfl, h.fromClient, h.down⟩

/-- So does the one towards its backend. -/
theorem Grows.backendBev (h : s.Grows t) (p : ProxyPtr) :
    (s.backendBev p).Grows (t.backendBev p) :=
  ⟨rfl, h.down.all, h.up⟩

theorem toClient_grows (s : Session) (n : Nat) : s.Grows (s.toClient n) := by
  rcases s with ⟨c, b, stage⟩
  cases stage with
  | greeting => exact .refl _
  | dialing | relaying =>
    exact ⟨rfl, rfl, fun _ h => h, List.prefix_refl _, .refl _, Outbox.le_take _ n⟩

theorem toBackend_grows (s : Session) (n : Nat) : s.Grows (s.toBackend n) := by
  rcases s with ⟨c, b, stage⟩
  cases stage with
  | greeting | dialing => exact .refl _
  | relaying id host peer up down =>
    refine ⟨rfl, rfl, fun _ h => h, ?_, Outbox.le_take _ n, .refl _⟩
    exact (Outbox.le_take up n).all

theorem fromBackend_grows (s : Session) (chunk : List UInt8) :
    s.Grows (s.fromBackend chunk) := by
  rcases s with ⟨c, b, stage⟩
  cases stage with
  | greeting => exact .refl _
  | dialing | relaying =>
    exact ⟨rfl, rfl, fun _ h => h, List.prefix_refl _, .refl _, Outbox.le_push _ chunk⟩

/-- What was parked has been put in the backend's outbox. -/
theorem answered_grows (s : Session) : s.Grows s.answered := by
  rcases s with ⟨c, b, stage⟩
  cases stage with
  | greeting | relaying => exact .refl _
  | dialing id host peer failed parked down =>
    refine ⟨rfl, rfl, fun _ h => h, ?_, Outbox.empty_le _, .refl _⟩
    simp [fromClient, answered]

theorem dial_grows {bs : List UInt8} (hst : s.state = .BEGIN) (hbs : s.parked <+: bs) (id : Int)
    (host : Config.Host) (peer : BevPtr) : s.Grows (s.dial id host peer bs) where
  connection := rfl
  sock := rfl
  peer b hb := by rw [peer_of_begin hst] at hb; cases hb
  fromClient := by rw [fromClient_of_begin hst]; exact hbs
  up := by rw [up_of_not_fwd (by rw [hst]; nofun)]; exact Outbox.empty_le _
  down := by rw [down_of_begin hst]; exact Outbox.empty_le _

end Session

namespace Board

variable {hosts : Config.Hosts} {B : Board} {sig : Signal} {p : ProxyPtr} {s t u : Session}

/-- A client that a signal is not about is as it was, if it is still there. -/
theorem step_rest (hsub : sig.subject ≠ some p) (hs : B.sessions.get p = some s)
    (ht : (B.step hosts sig).sessions.get p = some t) : t = s := by
  have hget : (B.step hosts sig).sessions.get p = some s := by
    rcases hq : sig.subject with _ | q
    · cases sig with
      | join connection =>
        show (B.join connection).sessions.get p = some s
        rcases hr : B.running with _ | _
        · rw [join_stopped hr, Heap.get_alloc_free, hs]
        · rw [join_running hr, Heap.get_alloc_of hs]
      | close k =>
        change (B.close k).sessions.get p = some t at ht
        rw [close_get] at ht
        split at ht
        · cases ht
        · exact (close_other ‹_›).trans hs
      | closeAll => cases ht
      | idle => exact hs
      | _ => cases hq
    · rw [step_other hq (by rintro rfl; exact hsub hq), hs]
  exact Option.some.inj (ht.symm.trans hget)

theorem grows_put (hs : B.sessions.get p = some s) (hg : s.Grows u)
    (ht : (B.put p u).sessions.get p = some t) : s.Grows t := by
  rw [put_sessions, Heap.get_set_self hs] at ht
  exact Option.some.inj ht ▸ hg

/-- A client that leaves is gone. -/
theorem leave_get (B : Board) (p : ProxyPtr) (u : Session) :
    (B.leave p u).sessions.get p ≠ some t := by
  rw [leave_sessions, Heap.get_free_self]
  nofun

theorem grows_fromClient (hs : B.sessions.get p = some s) (chunk : List UInt8) (d : Bool)
    (ht : (fromClient hosts d B p s chunk).sessions.get p = some t) : s.Grows t := by
  unfold fromClient at ht
  rcases hst : s.stage with ⟨buf, short⟩ | ⟨id, host, peer, failed, parked, down⟩ |
    ⟨id, host, peer, up, down⟩ <;> simp only [hst] at ht
  · have hbegin : s.state = .BEGIN := by simp [Session.state, hst]
    have hbuf : s.parked <+: buf ++ chunk := by
      simp [Session.parked, hst]
    split at ht
    · refine grows_put hs ?_ ht
      constructor <;> simp [Session.peer, Session.fromClient, Session.up, Session.down, hst,
        Outbox.Le.refl]
    · unfold dispatch at ht
      split at ht
      · exact absurd ht (leave_get _ _ _)
      · split at ht
        · exact grows_put (B := B.register p _ _) hs (Session.dial_grows hbegin hbuf _ _ _) ht
        · exact absurd ht (leave_get _ _ _)
  · refine grows_put hs ?_ ht
    constructor <;> simp [Session.peer, Session.fromClient, Session.up, Session.down, hst,
      Outbox.Le.refl]
  · refine grows_put hs ?_ ht
    constructor <;> simp [Session.peer, Session.fromClient, Session.up, Session.down, hst,
      Outbox.Le.refl, Outbox.le_push]

/-- **A session only grows.** -/
theorem step_grows (hs : B.sessions.get p = some s)
    (ht : (B.step hosts sig).sessions.get p = some t) : s.Grows t := by
  by_cases hp : sig.subject = some p
  · cases sig with
    | fromClient q chunk d =>
      obtain rfl := Option.some.inj hp
      rw [step, onClient_some hs] at ht
      exact grows_fromClient hs chunk d ht
    | fromBackend q chunk =>
      obtain rfl := Option.some.inj hp
      rw [step, onClient_some hs] at ht
      exact grows_put hs (s.fromBackend_grows chunk) ht
    | toClient q n =>
      obtain rfl := Option.some.inj hp
      rw [step, onClient_some hs] at ht
      exact grows_put hs (s.toClient_grows n) ht
    | toBackend q n =>
      obtain rfl := Option.some.inj hp
      rw [step, onClient_some hs] at ht
      exact grows_put hs (s.toBackend_grows n) ht
    | clientGone q =>
      obtain rfl := Option.some.inj hp
      rw [step, onClient_some hs] at ht
      exact absurd ht (leave_get _ _ _)
    | answered q =>
      obtain rfl := Option.some.inj hp
      rw [step, onClient_some hs] at ht
      exact grows_put hs s.answered_grows ht
    | backendGone q =>
      obtain rfl := Option.some.inj hp
      rw [step, onClient_some hs] at ht
      unfold backendGone at ht
      rcases hst : s.stage with ⟨buf, short⟩ | ⟨id, host, peer, failed, parked, down⟩ |
        ⟨id, host, peer, up, down⟩ <;> simp only [hst] at ht
      · exact Option.some.inj (hs.symm.trans ht) ▸ .refl s
      · refine grows_put hs ?_ ht
        constructor <;> simp [Session.peer, Session.fromClient, Session.up, Session.down, hst,
          Outbox.Le.refl]
      · exact absurd ht (leave_get _ _ _)
    | _ => cases hp
  · exact step_rest hp hs ht ▸ .refl _

/-- A client is there after a signal only if it was there before, or has come with it. -/
theorem step_grew (hp : p < B.sessions.next)
    (ht : (B.step hosts sig).sessions.get p = some t) :
    ∃ s, B.sessions.get p = some s ∧ s.Grows t := by
  have hold : ∃ s, B.sessions.get p = some s := by
    cases step_origin ht with
    | same hs => exact ⟨_, hs⟩
    | goes hs => exact ⟨_, hs⟩
    | dials hs => exact ⟨_, hs⟩
    | joins _ hq => exact absurd hq (Nat.ne_of_lt hp)
  obtain ⟨s, hs⟩ := hold
  exact ⟨s, hs, step_grows hs ht⟩

end Board

end TcpProxy
