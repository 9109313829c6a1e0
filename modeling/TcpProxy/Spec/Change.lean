import TcpProxy.Spec.Board

/-!
# What a signal can do

`Board.Change hosts B sig B'` lists the ways in which a signal can change a board, each with what
it says about the client it is about: the client goes on, is given a backend, leaves, or fails to
be given one; or the signal is about the whole board. `Board.step_change` is the inversion of
`Board.step` that all invariants of boards are proved from.
-/

namespace TcpProxy

namespace Signal

/-- The bytes that a signal brings from the client `p`. -/
def sent (p : ProxyPtr) : Signal → List UInt8
  | .fromClient q chunk _ => if q = p then chunk else []
  | _ => []

/-- The bytes that a signal brings from the backend of the client `p`. -/
def replied (p : ProxyPtr) : Signal → List UInt8
  | .fromBackend q chunk => if q = p then chunk else []
  | _ => []

/-- The signal ends the connection of the client `p`, in the session `s`. -/
def Ends (hosts : Config.Hosts) (p : ProxyPtr) (s : Session) : Signal → Prop
  | .clientGone q => q = p
  | .backendGone q => q = p ∧ s.state = .FWD
  | .fromClient q chunk _ => q = p ∧ s.state = .BEGIN ∧ 12 ≤ (s.parked ++ chunk).length ∧
      route hosts (s.parked ++ chunk) = none
  | _ => False

/-- The signal completes the header of the client `p`, in the session `s`: it leads to the backend
`host` as the client `id`, and `dialed` says whether the attempt to connect is started. -/
def Admits (hosts : Config.Hosts) (p : ProxyPtr) (s : Session) (id : Int) (host : Config.Host)
    (dialed : Bool) : Signal → Prop
  | .fromClient q chunk d => q = p ∧ s.state = .BEGIN ∧ 12 ≤ (s.parked ++ chunk).length ∧
      route hosts (s.parked ++ chunk) = some (id, host) ∧ d = dialed
  | _ => False

/-- The client that a signal is about. -/
def subject : Signal → Option ProxyPtr
  | .fromClient p _ _ => some p
  | .fromBackend p _ => some p
  | .toClient p _ => some p
  | .toBackend p _ => some p
  | .clientGone p => some p
  | .answered p => some p
  | .backendGone p => some p
  | _ => none

theorem ends_iff {hosts : Config.Hosts} {p : ProxyPtr} {s : Session} {sig : Signal} :
    sig.Ends hosts p s ↔ sig = .clientGone p ∨ (sig = .backendGone p ∧ s.state = .FWD) ∨
      s.state = .BEGIN ∧ ∃ chunk d, sig = .fromClient p chunk d ∧ 12 ≤ (s.parked ++ chunk).length ∧
        route hosts (s.parked ++ chunk) = none := by
  cases sig <;> simp [Ends]
  grind

theorem admits_iff {hosts : Config.Hosts} {p : ProxyPtr} {s : Session} {id : Int}
    {host : Config.Host} {dialed : Bool} {sig : Signal} :
    sig.Admits hosts p s id host dialed ↔ s.state = .BEGIN ∧ ∃ chunk,
      sig = .fromClient p chunk dialed ∧ 12 ≤ (s.parked ++ chunk).length ∧
        route hosts (s.parked ++ chunk) = some (id, host) := by
  cases sig <;> simp [Admits]
  grind

/-- A signal brings no bytes but those of the client it is about and its backend. -/
theorem quiet {p q : ProxyPtr} {sig : Signal} (hp : sig.subject = some p) (hq : q ≠ p) :
    sig.sent q = [] ∧ sig.replied q = [] := by
  cases sig <;> simp_all [subject, sent, replied, Ne.symm hq]

end Signal

/-- A client that keeps its sockets, its id and its backend. -/
structure Session.Keeps (s t : Session) : Prop where
  sock : t.sock = s.sock
  peer : t.peer = s.peer
  id : t.id = s.id
  backend : t.backend = s.backend

namespace Board

inductive Change (hosts : Config.Hosts) (B : Board) (sig : Signal) : Board → Prop
  | same (h : ∀ p s, B.sessions.get p = some s →
      sig.sent p = [] ∧ (s.peer.isSome → sig.replied p = [])) : Change hosts B sig B
  | goes {p : ProxyPtr} {s t : Session} (hs : B.sessions.get p = some s) (hk : s.Keeps t)
      (hin : t.fromClient = s.fromClient ++ sig.sent p)
      (hout : s.peer.isSome → t.down.all = s.down.all ++ sig.replied p)
      (hdown : t.link = .down → s.link = .down ∨ sig = .backendGone p ∧ s.state = .CONNECTING)
      (hp : sig.subject = some p) : Change hosts B sig (B.put p t)
  | dials {p : ProxyPtr} {s : Session} {id : Int} {host : Config.Host} {bs : List UInt8}
      (hs : B.sessions.get p = some s) (hg : s.state = .BEGIN) (hbs : bs = s.parked ++ sig.sent p)
      (ha : sig.Admits hosts p s id host true) (hp : sig.subject = some p) :
      Change hosts B sig ((B.register p id host).put p (s.dial id host B.nextSock bs))
  | leaves {p : ProxyPtr} {s : Session} (hs : B.sessions.get p = some s)
      (he : sig.Ends hosts p s) (hp : sig.subject = some p) : Change hosts B sig (B.leave p s)
  | fails {p : ProxyPtr} {s : Session} {id : Int} {host : Config.Host} {bs : List UInt8}
      (hs : B.sessions.get p = some s) (hg : s.state = .BEGIN)
      (ha : sig.Admits hosts p s id host false) (hp : sig.subject = some p) :
      Change hosts B sig ((B.register p id host).leave p (s.dial id host B.nextSock bs))
  | joins {connection : ClientConnection} (h : sig = .join connection) :
      Change hosts B sig (B.join connection)
  | closes {k : Int} (h : sig = .close k) : Change hosts B sig (B.close k)
  | closesAll (h : sig = .closeAll) : Change hosts B sig B.closeAll

variable {hosts : Config.Hosts} {B : Board} {p : ProxyPtr} {s : Session}

theorem change_fromClient (hs : B.sessions.get p = some s) (chunk : List UInt8) (dialed : Bool) :
    Change hosts B (.fromClient p chunk dialed) (fromClient hosts dialed B p s chunk) := by
  have hsent : (Signal.fromClient p chunk dialed).sent p = chunk := by simp [Signal.sent]
  have hreplied : (Signal.fromClient p chunk dialed).replied p = [] := rfl
  unfold fromClient
  rcases hst : s.stage with ⟨buf, short⟩ | ⟨id, host, peer, failed, parked, down⟩ |
    ⟨id, host, peer, up, down⟩
  · have hparked : s.parked = buf := by simp [Session.parked, hst]
    have hg : s.state = .BEGIN := by simp [Session.state, hst]
    simp only []
    split
    · refine .goes hs ⟨rfl, ?_, ?_, ?_⟩ ?_ ?_ ?_ rfl <;>
        simp [Session.peer, Session.id, Session.backend, Session.fromClient, Session.link, hst,
          hsent]
    · rename_i hl
      unfold dispatch
      rw [← hparked] at hl ⊢
      rcases hr : route hosts (s.parked ++ chunk) with _ | ⟨id, host⟩
      · exact .leaves hs ⟨rfl, hg, Nat.not_lt.1 hl, hr⟩ rfl
      · have ha : (Signal.fromClient p chunk dialed).Admits hosts p s id host dialed :=
          ⟨rfl, hg, Nat.not_lt.1 hl, hr, rfl⟩
        cases dialed
        · exact .fails hs hg ha rfl
        · exact .dials hs hg (by rw [hsent]) ha rfl
  · refine .goes hs ⟨rfl, ?_, ?_, ?_⟩ ?_ ?_ ?_ rfl <;>
      simp [Session.peer, Session.id, Session.backend, Session.fromClient, Session.down,
        Session.link, hst, hsent, hreplied]
  · refine .goes hs ⟨rfl, ?_, ?_, ?_⟩ ?_ ?_ ?_ rfl <;>
      simp [Session.peer, Session.id, Session.backend, Session.fromClient, Session.down,
        Session.link, hst, hsent, hreplied]

theorem change_fromBackend (hs : B.sessions.get p = some s) (chunk : List UInt8) :
    Change hosts B (.fromBackend p chunk) (B.put p (s.fromBackend chunk)) := by
  refine .goes hs ?_ ?_ ?_ ?_ rfl
  · constructor <;> rcases s with ⟨_, _, _ | _ | _⟩ <;> rfl
  · rcases s with ⟨_, _, _ | _ | _⟩ <;>
      simp [Session.fromBackend, Session.fromClient, Signal.sent]
  · rcases s with ⟨_, _, _ | _ | _⟩ <;>
      simp [Session.fromBackend, Session.down, Session.peer, Signal.replied]
  · rcases s with ⟨_, _, _ | _ | _⟩ <;> simp [Session.fromBackend, Session.link]

theorem change_toClient (hs : B.sessions.get p = some s) (n : Nat) :
    Change hosts B (.toClient p n) (B.put p (s.toClient n)) := by
  refine .goes hs ?_ ?_ ?_ ?_ rfl
  · constructor <;> rcases s with ⟨_, _, _ | _ | _⟩ <;> rfl
  · rcases s with ⟨_, _, _ | _ | _⟩ <;> simp [Session.toClient, Session.fromClient, Signal.sent]
  · rcases s with ⟨_, _, _ | _ | _⟩ <;> simp [Session.toClient, Session.down, Signal.replied]
  · rcases s with ⟨_, _, _ | _ | _⟩ <;> simp [Session.toClient, Session.link]

theorem change_toBackend (hs : B.sessions.get p = some s) (n : Nat) :
    Change hosts B (.toBackend p n) (B.put p (s.toBackend n)) := by
  refine .goes hs ?_ ?_ ?_ ?_ rfl
  · constructor <;> rcases s with ⟨_, _, _ | _ | _⟩ <;> rfl
  · rcases s with ⟨_, _, _ | _ | _⟩ <;> simp [Session.toBackend, Session.fromClient, Signal.sent]
  · rcases s with ⟨_, _, _ | _ | _⟩ <;> simp [Session.toBackend, Session.down, Signal.replied]
  · rcases s with ⟨_, _, _ | _ | _⟩ <;> simp [Session.toBackend, Session.link]

theorem change_answered (hs : B.sessions.get p = some s) :
    Change hosts B (.answered p) (B.put p s.answered) := by
  refine .goes hs ?_ ?_ ?_ ?_ rfl
  · constructor <;> rcases s with ⟨_, _, _ | _ | _⟩ <;> rfl
  · rcases s with ⟨_, _, _ | _ | _⟩ <;>
      simp [Session.answered, Session.fromClient, Signal.sent]
  · rcases s with ⟨_, _, _ | _ | _⟩ <;> simp [Session.answered, Session.down, Signal.replied]
  · rcases s with ⟨_, _, _ | _ | _⟩ <;> simp [Session.answered, Session.link]

theorem change_backendGone (hs : B.sessions.get p = some s) :
    Change hosts B (.backendGone p) (B.backendGone p s) := by
  unfold backendGone
  rcases hst : s.stage with ⟨buf, short⟩ | ⟨id, host, peer, failed, parked, down⟩ |
    ⟨id, host, peer, up, down⟩
  · exact .same fun _ _ _ => ⟨rfl, fun _ => rfl⟩
  · refine .goes hs ⟨rfl, ?_, ?_, ?_⟩ ?_ ?_ ?_ rfl <;>
      simp [Session.peer, Session.id, Session.backend, Session.fromClient, Session.down,
        Session.link, Session.state, Signal.sent, Signal.replied, hst]
  · exact .leaves hs ⟨rfl, by simp [Session.state, hst]⟩ rfl

theorem change_onClient {sig : Signal} {f : Session → Board} (hsub : sig.subject = some p)
    (hf : ∀ s, B.sessions.get p = some s → Change hosts B sig (f s)) :
    Change hosts B sig (B.onClient p f) := by
  rcases hp : B.sessions.get p with _ | s
  · rw [onClient_none hp]
    refine .same fun q s hs => ?_
    have hq : q ≠ p := fun e => by rw [e, hp] at hs; cases hs
    exact ⟨(Signal.quiet hsub hq).1, fun _ => (Signal.quiet hsub hq).2⟩
  · rw [onClient_some hp]
    exact hf s hp

/-- **What a signal can do.** -/
theorem step_change (hosts : Config.Hosts) (B : Board) (sig : Signal) :
    Change hosts B sig (B.step hosts sig) := by
  cases sig with
  | join connection => exact .joins rfl
  | close k => exact .closes rfl
  | closeAll => exact .closesAll rfl
  | idle => exact .same fun _ _ _ => ⟨rfl, fun _ => rfl⟩
  | fromClient p chunk dialed =>
    exact change_onClient rfl fun s hs => change_fromClient hs chunk dialed
  | fromBackend p chunk =>
    exact change_onClient rfl fun s hs => change_fromBackend hs chunk
  | toClient p n => exact change_onClient rfl fun s hs => change_toClient hs n
  | toBackend p n => exact change_onClient rfl fun s hs => change_toBackend hs n
  | answered p => exact change_onClient rfl fun s hs => change_answered hs
  | backendGone p => exact change_onClient rfl fun s hs => change_backendGone hs
  | clientGone p =>
    refine change_onClient rfl fun s hs => .leaves hs ?_ rfl
    exact rfl

/-! ## What a signal does to its client -/

theorem step_ends {sig : Signal} (hs : B.sessions.get p = some s) (he : sig.Ends hosts p s) :
    B.step hosts sig = B.leave p s := by
  rcases Signal.ends_iff.1 he with rfl | ⟨rfl, hst⟩ | ⟨hst, chunk, d, rfl, hl, hr⟩
  · rw [step, onClient_some hs]
  · obtain ⟨id, host, peer, hst⟩ := Session.stage_of_fwd hst
    simp only [step, onClient_some hs, backendGone, hst]
  · obtain ⟨short, hst⟩ := Session.stage_of_begin hst
    simp only [step, onClient_some hs, fromClient, hst, dif_neg (Nat.not_lt.2 hl), dispatch, hr]

theorem step_admits {sig : Signal} {id : Int} {host : Config.Host} {d : Bool}
    (hs : B.sessions.get p = some s) (ha : sig.Admits hosts p s id host d) :
    ∃ bs, B.step hosts sig = if d then (B.register p id host).put p (s.dial id host B.nextSock bs)
      else (B.register p id host).leave p (s.dial id host B.nextSock bs) := by
  obtain ⟨hst, chunk, rfl, hl, hr⟩ := Signal.admits_iff.1 ha
  obtain ⟨short, hst⟩ := Session.stage_of_begin hst
  refine ⟨s.parked ++ chunk, ?_⟩
  simp only [step, onClient_some hs, fromClient, hst, dif_neg (Nat.not_lt.2 hl), dispatch, hr]

/-- The backend of a client that waits for it cannot be reached: the client stays. -/
theorem step_connectFails (hosts : Config.Hosts) (hs : B.sessions.get p = some s)
    (hst : s.state = .CONNECTING) :
    ∃ t, (B.step hosts (.backendGone p)).sessions.get p = some t ∧ t.link = .down := by
  obtain ⟨id, host, peer, failed, down, hst⟩ := Session.stage_of_connecting hst
  refine ⟨{ s with stage := .dialing id host peer true s.parked down }, ?_, rfl⟩
  simp only [step, onClient_some hs, backendGone, hst, put_sessions, Heap.get_set_self hs]

theorem close_get (B : Board) (k : Int) (q : ProxyPtr) : (B.close k).sessions.get q =
    if (k, q) ∈ B.index then none else B.sessions.get q := by
  rw [close, Heap.get_foldl_free]
  simp only [Multimap.mem_values]

/-- Sockets are numbered upwards. -/
theorem Change.nextSock_le {sig : Signal} {B' : Board} (hc : Change hosts B sig B') :
    B.nextSock ≤ B'.nextSock := by
  cases hc with
  | dials | fails | joins => exact Nat.le_succ _
  | _ => exact Nat.le_refl _

/-! ## Where a session comes from -/

/-- How the client `q` came to be in the session `u`. -/
inductive Origin (hosts : Config.Hosts) (B : Board) (sig : Signal) (q : ProxyPtr) (u : Session) :
    Prop
  | same (h : B.sessions.get q = some u) (hin : sig.sent q = [])
      (hout : u.peer.isSome → sig.replied q = [])
  | goes {s : Session} (hs : B.sessions.get q = some s) (hk : s.Keeps u)
      (hin : u.fromClient = s.fromClient ++ sig.sent q)
      (hout : s.peer.isSome → u.down.all = s.down.all ++ sig.replied q)
      (hdown : u.link = .down → s.link = .down ∨ sig = .backendGone q ∧ s.state = .CONNECTING)
  | dials {s : Session} {id : Int} {host : Config.Host} {bs : List UInt8}
      (hs : B.sessions.get q = some s) (hg : s.state = .BEGIN) (hbs : bs = s.parked ++ sig.sent q)
      (ha : sig.Admits hosts q s id host true) (hu : u = s.dial id host B.nextSock bs)
  | joins {connection : ClientConnection} (h : sig = .join connection) (hq : q = B.sessions.next)
      (hu : u = .new connection B.nextSock)

/-- **Every session after a signal** is one from before, or has begun with the signal. -/
theorem step_origin {sig : Signal} {q : ProxyPtr} {u : Session}
    (hu : (B.step hosts sig).sessions.get q = some u) : Origin hosts B sig q u := by
  have hc := step_change hosts B sig
  generalize B.step hosts sig = B' at hc hu
  -- a client other than the signal's is as it was
  have hrest : ∀ {p}, sig.subject = some p → q ≠ p → B.sessions.get q = some u →
      Origin hosts B sig q u := fun hp hq h =>
    .same h (Signal.quiet hp hq).1 fun _ => (Signal.quiet hp hq).2
  cases hc with
  | same h => exact .same hu (h q u hu).1 (h q u hu).2
  | goes hs hk hin hout hdown hp =>
    rw [put_sessions, Heap.get_set_of hs] at hu
    split at hu
    · rename_i e
      subst e
      obtain rfl := Option.some.inj hu
      exact .goes hs hk hin hout hdown
    · exact hrest hp ‹_› hu
  | dials hs hg hbs ha hp =>
    rw [put_sessions, register_sessions, Heap.get_set_of hs] at hu
    split at hu
    · rename_i e
      subst e
      exact .dials hs hg hbs ha (Option.some.inj hu).symm
    · exact hrest hp ‹_› hu
  | leaves hs he hp =>
    rw [leave_sessions, Heap.get_free] at hu
    split at hu
    · cases hu
    · exact hrest hp ‹_› hu
  | fails hs hg ha hp =>
    rw [leave_sessions, register_sessions, Heap.get_free] at hu
    split at hu
    · cases hu
    · exact hrest hp ‹_› hu
  | joins h =>
    subst h
    rcases hr : B.running with _ | _
    · rw [join_stopped hr, Heap.get_alloc_free] at hu
      exact .same hu rfl fun _ => rfl
    · rw [join_running hr, Heap.get_alloc] at hu
      split at hu
      · exact .joins rfl ‹_› (Option.some.inj hu).symm
      · exact .same hu rfl fun _ => rfl
  | closes h =>
    subst h
    rw [close_get] at hu
    split at hu
    · cases hu
    · exact .same hu rfl fun _ => rfl
  | closesAll h => cases hu

/-- No client is left with a failed socket but by its backend while the connect is in progress. -/
theorem step_no_down {sig : Signal} (h : ∀ p s, B.sessions.get p = some s → s.link ≠ .down)
    (hsig : ∀ p s, B.sessions.get p = some s → s.state = .CONNECTING → sig ≠ .backendGone p)
    (p : ProxyPtr) (t : Session) (ht : (B.step hosts sig).sessions.get p = some t) :
    t.link ≠ .down := by
  cases step_origin ht with
  | same hs => exact h p t hs
  | goes hs _ _ _ hdown =>
    intro hl
    rcases hdown hl with hl | ⟨hl, hst⟩
    · exact h p _ hs hl
    · exact hsig p _ hs hst hl
  | dials _ _ _ _ hu => rw [hu]; nofun
  | joins _ _ hu => rw [hu]; nofun

/-- **Who leaves**: a client that a signal ends, that is not given the backend of its header, or
that a message drops. -/
theorem step_gone {sig : Signal} (hs : B.sessions.get p = some s)
    (hp : (B.step hosts sig).sessions.get p = none) :
    sig.Ends hosts p s ∨ (∃ id host, sig.Admits hosts p s id host false) ∨
      (∃ k, sig = .close k ∧ (k, p) ∈ B.index) ∨ sig = .closeAll := by
  have hc := step_change hosts B sig
  generalize B.step hosts sig = B' at hc hp
  cases hc with
  | same => rw [hs] at hp; cases hp
  | goes hs' =>
    rw [put_sessions, Heap.get_set_of hs'] at hp
    split at hp
    · cases hp
    · rw [hs] at hp; cases hp
  | dials hs' =>
    rw [put_sessions, register_sessions, Heap.get_set_of hs'] at hp
    split at hp
    · cases hp
    · rw [hs] at hp; cases hp
  | leaves hs' he =>
    rw [leave_sessions, Heap.get_free] at hp
    split at hp
    · rename_i e
      subst e
      obtain rfl := Option.some.inj (hs.symm.trans hs')
      exact .inl he
    · rw [hs] at hp; cases hp
  | fails hs' hg ha =>
    rw [leave_sessions, register_sessions, Heap.get_free] at hp
    split at hp
    · rename_i e
      subst e
      obtain rfl := Option.some.inj (hs.symm.trans hs')
      exact .inr (.inl ⟨_, _, ha⟩)
    · rw [hs] at hp; cases hp
  | joins h =>
    rcases hr : B.running with _ | _
    · rw [join_stopped hr, Heap.get_alloc_free, hs] at hp
      cases hp
    · rw [join_running hr, Heap.get_alloc_of hs] at hp
      cases hp
  | closes h =>
    rw [close_get] at hp
    split at hp
    · exact .inr (.inr (.inl ⟨_, h, ‹_›⟩))
    · rw [hs] at hp; cases hp
  | closesAll h => exact .inr (.inr (.inr h))

theorem step_running {sig : Signal} :
    (B.step hosts sig).running = true ↔ B.running = true ∧ sig ≠ .closeAll := by
  by_cases hsig : sig = .closeAll
  · subst hsig
    exact iff_of_false Bool.false_ne_true fun h => h.2 rfl
  · have hsame : (B.step hosts sig).running = B.running := by
      have hc := step_change hosts B sig
      generalize B.step hosts sig = B' at hc
      cases hc with
      | closesAll h => exact absurd h hsig
      | _ => rfl
    rw [hsame]
    exact (and_iff_left hsig).symm

/-! ## What a signal does not touch -/

/-- **A signal about one client** leaves every other client as it is. -/
theorem step_other {q : ProxyPtr} {sig : Signal} (hp : sig.subject = some p) (hq : q ≠ p) :
    (B.step hosts sig).sessions.get q = B.sessions.get q := by
  have hc := step_change hosts B sig
  generalize B.step hosts sig = B' at hc
  cases hc with
  | same => rfl
  | goes hs _ _ _ _ hp' =>
    obtain rfl := Option.some.inj (hp.symm.trans hp')
    exact Heap.get_set_ne hq _
  | dials hs _ _ _ hp' =>
    obtain rfl := Option.some.inj (hp.symm.trans hp')
    exact Heap.get_set_ne hq _
  | leaves hs _ hp' =>
    obtain rfl := Option.some.inj (hp.symm.trans hp')
    rw [leave_sessions, Heap.get_free, if_neg hq]
  | fails hs _ _ hp' =>
    obtain rfl := Option.some.inj (hp.symm.trans hp')
    rw [leave_sessions, Heap.get_free, if_neg hq, register_sessions]
  | joins h => rw [h] at hp; cases hp
  | closes h => rw [h] at hp; cases hp
  | closesAll h => rw [h] at hp; cases hp

/-- **Closing an id** leaves every client that is not filed under it as it is. -/
theorem close_other {q : ProxyPtr} {k : Int} (hq : (k, q) ∉ B.index) :
    (B.close k).sessions.get q = B.sessions.get q := by rw [close_get, if_neg hq]

end Board

end TcpProxy
