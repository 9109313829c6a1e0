import TcpProxy.Proof.Index
import TcpProxy.Proof.Streams
import TcpProxy.Spec.Route

/-!
# Routing

What becomes of a client that nothing else closes depends on the bytes it has sent alone, however
they were cut into chunks, whatever the other clients did meanwhile, and whenever its backend
accepted (`decided`): fewer than 12 bytes leave it waiting, the header of an id that the table has
leads it to that backend and to no other, and anything else has it dropped without a trace.
-/

namespace TcpProxy

open Libevent Runs

/-- The event does not close the client `p`, unless by the bytes it brings from it. -/
structure Spares (E : Env) (p : ProxyPtr) (w : World) (e : Event) : Prop where
  client : ¬ ClientCloses w p e
  backend : ¬ BackendCloses w p e
  /-- `connect` does not return false -/
  dialed : ∀ id, ¬ Undialed E w p id e
  close : ∀ px, w.proxies.get p = some px → e ≠ .control ⟨.CLOSE, px.id⟩
  closeAll : ∀ id, e ≠ .control ⟨.CLOSE_ALL, id⟩

def ReadsFrom (w : World) (p : ProxyPtr) (e : Event) : Prop :=
  ∃ c chunk X, e = .read c chunk ∧ w.bevs.get c = some X ∧ X.ctx = .proxy p

/-- What has become of the client `p`, accepted with the state `u`, when the events `es` have led to
`w` and it has sent `bs` along them. -/
structure Decided (E : Env) (u : World) (es : List Event) (w : World) (p : ProxyPtr)
    (bs : List UInt8) : Prop where
  waits : bs.length < 12 →
    p ∈ w.cm.processors ∧ InState w p .BEGIN ∧ callsOf p w.log = []
  routes : ∀ k host, -2 ^ 31 ≤ k → k < 2 ^ 31 → header k <+: bs → E.config k = some host →
    p ∈ w.cm.processors ∧ callsOf p w.log = [Call.idRecv p k, Call.connect p host] ∧
      ∃ px f, w.proxies.get p = some px ∧ px.id = k ∧ px.fwd = some f ∧
        f.host = host.1 ∧ f.port = host.2
  refuses : 12 ≤ bs.length →
    (∀ k host, -2 ^ 31 ≤ k → k < 2 ^ 31 → header k <+: bs → E.config k ≠ some host) →
    p ∉ w.cm.processors ∧ callsOf p w.log = [] ∧
      EveryStep (next E) u es fun v e => ReadsFrom v p e → ∀ v', next E v e = some v' →
        v'.pm.idToConn = v.pm.idToConn

/-! ## What a client has been heard to send -/

/-- The client `p` of a board has sent `bs`: it is there, or was refused for them. -/
inductive Board.Heard (hosts : Config.Hosts) (B : Board) (p : ProxyPtr) (b : BevPtr)
    (bs : List UInt8) : Prop
  | served {s : Session} (hs : B.sessions.get p = some s) (hb : s.sock = b)
      (hin : s.fromClient = bs)
  | refused (hs : B.sessions.get p = none) (hl : 12 ≤ bs.length) (hr : route hosts bs = none)
      (hc : callsOf p B.log = [])

/-- What a board knows of its clients and where it has led them. -/
structure Ledger (hosts : Config.Hosts) (B : Board) : Prop where
  onFile : OnFile B
  routed : B.Routed hosts

section
variable {E : Env} {u v w w' : World} {B : Board} {p : ProxyPtr} {s : Session} {e : Event}
  {es : List Event} {b : BevPtr} {bs : List UInt8}

theorem Ledger.step {hosts : Config.Hosts} (h : Ledger hosts B) (sig : Signal) :
    Ledger hosts (B.step hosts sig) := ⟨h.onFile.step hosts sig, Board.routed_step sig h.routed⟩

theorem Ledger.led {hosts : Config.Hosts} (h : Ledger hosts B) (hs : B.sessions.get p = some s) :
    s.backend = none ∧ s.state = .BEGIN ∧ s.fromClient.length < 12 ∨
      ∃ host, s.backend = some host ∧ 12 ≤ s.fromClient.length ∧
        route hosts s.fromClient = some (s.id, host) := by
  rcases hb : s.backend with _ | host
  · exact .inl ⟨rfl, Session.of_backend_none hb⟩
  · exact .inr ⟨host, rfl, h.routed p s host hs hb⟩

/-- A client that is spared is dropped by its own bytes only. -/
theorem rejected_of_gone (h : Represents w B) (hF : B.Filed) (hs : B.sessions.get p = some s)
    (hsp : Spares E p w e)
    (hgone : (B.step E.config (label E w e)).sessions.get p = none) : Rejected E w p e := by
  rcases Board.step_gone hs hgone with he | ⟨id, host, ha⟩ | ⟨k, hk, hm⟩ | hall
  · rcases (ends_iff h hs).1 he with hc | hc | hc
    · exact absurd hc hsp.client
    · exact absurd hc hsp.backend
    · exact hc
  · obtain ⟨hc, hd⟩ := (admits_iff h hs).1 ha
    exact absurd ⟨⟨host, hc⟩, of_decide_eq_false hd.symm⟩ (hsp.dialed id)
  · refine absurd ?_ (hsp.close _ (h.object hs))
    rw [Session.object_id, (hF.entry _ hm s hs).2]
    exact label_close.1 hk
  · obtain ⟨id, he⟩ := label_closeAll.1 hall
    exact absurd he (hsp.closeAll id)

theorem heard_step (h : Represents w B) (hF : OnFile B) (hp : p < B.sessions.next)
    (hsp : Spares E p w e) (hh : B.Heard E.config p b (bytesRead b es)) :
    (B.step E.config (label E w e)).Heard E.config p b (bytesRead b (es ++ [e])) := by
  rw [bytesRead_concat]
  cases hh with
  | @served s hs hb hin =>
    subst hb
    rw [← hin, ← sent_label h hs]
    rcases hu : (B.step E.config (label E w e)).sessions.get p with _ | t
    · -- the bytes are a header that leads nowhere
      have hrej := rejected_of_gone h hF.filed hs hsp hu
      have hends := (ends_iff h hs).2 (.inr (.inr hrej))
      obtain ⟨hst, chunk, hlab, hl, hr⟩ := (completes_iff h hs).1 hrej
      have hsent : (label E w e).sent p = chunk := by rw [hlab]; exact if_pos rfl
      rw [hsent, Session.fromClient_of_begin hst]
      refine .refused hu hl hr ?_
      rw [Board.step_ends hs hends, Board.leave_log, hF.logged.calls p s hs, Session.calls,
        Session.backend_of_begin hst]
    · cases Board.step_origin hu with
      | same hs' hin' =>
        obtain rfl := Option.some.inj (hs.symm.trans hs')
        exact .served hu rfl (by rw [hin', List.append_nil])
      | goes hs' hk hin' =>
        obtain rfl := Option.some.inj (hs.symm.trans hs')
        exact .served hu hk.sock hin'
      | dials hs' hg hbs _ ht =>
        obtain rfl := Option.some.inj (hs.symm.trans hs')
        subst ht
        rw [Session.fromClient_of_begin hg, ← hbs]
        exact .served hu rfl rfl
      | joins _ hq => exact absurd hq (Nat.ne_of_lt hp)
  | refused hs hl hr hc =>
    obtain ⟨hs', hc'⟩ := Board.step_stays_gone E.config (label E w e) hs hp
    exact .refused hs' (by rw [List.length_append]; omega) ((route_append _ hl _).trans hr)
      (hc'.trans hc)

theorem run_heard {connection : ClientConnection} (hu : Reachable E u) (hrun : u.cm.running = true)
    (ha : next E u (.accept connection) = some v) (hr : Run E v es w)
    (hsp : EveryStep (next E) v es (Spares E u.proxies.next)) :
    ∃ B, Represents w B ∧ Ledger E.config B ∧ u.proxies.next < B.sessions.next ∧
      B.Heard E.config u.proxies.next u.bevs.next (bytesRead u.bevs.next es) := by
  refine Run.history (P := fun es w => EveryStep (next E) v es (Spares E u.proxies.next) →
    ∃ B, Represents w B ∧ Ledger E.config B ∧ u.proxies.next < B.sessions.next ∧
      B.Heard E.config u.proxies.next u.bevs.next (bytesRead u.bevs.next es)) ?_ ?_ hr hsp
  · intro _
    obtain ⟨B, hB, hL⟩ := reachable_represents (Ledger E.config)
      ⟨⟨Board.filed_init, Board.logged_init⟩, Board.routed_init⟩ (fun _ sig h => h.step sig) hu
    have hjoin := Board.join_running (hB.running.symm.trans hrun) connection
    refine ⟨B.join connection, next_refines hB ha, hL.step (.join connection), ?_, ?_⟩
    · rw [hjoin, hB.nextProxy]
      exact Nat.lt_succ_self _
    · rw [hjoin]
      refine .served (s := .new connection B.nextSock) ?_ hB.nextBev.symm rfl
      rw [hB.nextProxy]
      exact Heap.get_alloc_next _ _
  · intro es x e y hx hP hn hsp
    obtain ⟨B, hB, hL, hp, hh⟩ := hP hsp.of_append
    refine ⟨_, next_refines hB hn, hL.step _, ?_, ?_⟩
    · exact Nat.lt_of_lt_of_le hp (Board.step_change _ _ _).next_le
    · exact heard_step hB hL.onFile hp (hsp es e [] x rfl hx) hh

/-! ## Where it leads -/

theorem route_none_iff (hn : Config.Named E.config) (hl : 12 ≤ bs.length) :
    route E.config bs = none ↔ ∀ k host, -2 ^ 31 ≤ k → k < 2 ^ 31 → header k <+: bs →
      E.config k ≠ some host := by
  rw [← Option.not_isSome_iff_eq_none, Option.isSome_iff_exists, Prod.exists, not_exists]
  refine forall_congr' fun k => ?_
  rw [not_exists]
  refine forall_congr' fun host => ?_
  rw [route_eq_some hn hl, not_and, not_and, not_and]

theorem index_of_reads (h : Represents w B) (hh : B.Heard E.config p b (bytesRead b es))
    (hn : next E w e = some w') (hread : ReadsFrom w p e)
    (hr : 12 ≤ (bytesRead b (es ++ [e])).length → route E.config (bytesRead b (es ++ [e])) = none) :
    w'.pm.idToConn = w.pm.idToConn := by
  obtain ⟨c, chunk, X, rfl, hX, hctx⟩ := hread
  have hlab : label E w (.read c chunk) =
      .fromClient p chunk (decide (E.connectRc w.bevs.next = 0)) :=
    label_fromClient.2 ⟨rfl, c, X, rfl, hX, hctx⟩
  rw [(next_refines h hn).index, h.index]
  rcases Board.step_index E.config hlab with hi | ⟨s, id, host, hs, ha⟩
  · exact hi
  · exfalso
    cases hh with
    | refused hs' => rw [hs'] at hs; cases hs
    | served hs' hb hin =>
      obtain rfl := Option.some.inj (hs.symm.trans hs')
      have hdel : (Event.read c chunk).delivered b = chunk := by
        rw [← hb, ← sent_label h hs, hlab]
        exact if_pos rfl
      rw [hlab] at ha
      obtain ⟨-, hst, hl, hroute, -⟩ := ha
      rw [bytesRead_concat, hdel, ← hin, Session.fromClient_of_begin hst] at hr
      rw [hr hl] at hroute
      cases hroute

/-- **The decision is a function of the bytes alone.** -/
theorem decided {unset : Nat → UInt16} {text : IStream} {connection : ClientConnection}
    (hcfg : Config.read unset text = some E.config) (hu : Reachable E u)
    (hrun : u.cm.running = true) (ha : next E u (.accept connection) = some v)
    (hr : Run E v es w) (hsp : EveryStep (next E) v es (Spares E u.proxies.next)) :
    Decided E v es w u.proxies.next (bytesRead u.bevs.next es) := by
  have hnamed := Config.read_named hcfg
  obtain ⟨B, hB, hL, -, hh⟩ := run_heard hu hrun ha hr hsp
  refine ⟨fun hl => ?_, fun k host hlo hhi hpre hk => ?_, fun hl hno => ?_⟩
  · cases hh with
    | refused _ hl' => omega
    | @served s hs _ hin =>
      rcases hL.led hs with ⟨hb, hst, -⟩ | ⟨_, -, hl', -⟩
      · refine ⟨hB.mem_processors hs, (inState_iff hB hs _).2 hst, ?_⟩
        rw [hB.log, hL.onFile.logged.calls _ s hs, Session.calls, hb]
      · rw [hin] at hl'
        omega
  · have hl : 12 ≤ (bytesRead u.bevs.next es).length := hpre.length_le
    have hroute := (route_eq_some hnamed hl).2 ⟨hlo, hhi, hpre, hk⟩
    cases hh with
    | refused _ _ hr' => rw [hroute] at hr'; cases hr'
    | @served s hs _ hin =>
      rw [← hin] at hl hroute
      rcases hL.led hs with ⟨-, -, hl'⟩ | ⟨host', hb, -, hr'⟩
      · omega
      · -- the table leads to one backend only
        obtain ⟨rfl, rfl⟩ := Prod.mk.inj (Option.some.inj (hr'.symm.trans hroute))
        obtain ⟨f, hf, hhost, hport⟩ := Session.fwd_of_backend u.proxies.next hb
        refine ⟨hB.mem_processors hs, ?_, _, f, hB.object hs, rfl, hf, hhost, hport⟩
        rw [hB.log, hL.onFile.logged.calls _ s hs, Session.calls, hb]
  · have hroute := (route_none_iff hnamed hl).2 hno
    cases hh with
    | @served s hs _ hin =>
      rw [← hin] at hl hroute
      rcases hL.led hs with ⟨-, -, hl'⟩ | ⟨_, -, -, hr'⟩
      · omega
      · rw [hroute] at hr'
        cases hr'
    | refused hs _ _ hc =>
      refine ⟨hB.not_mem_of_gone hs, hB.log ▸ hc, fun pre e post x he hx hread x' hn => ?_⟩
      -- what had been sent by then led nowhere either
      subst he
      obtain ⟨B', hB', -, -, hh'⟩ := run_heard hu hrun ha hx hsp.of_append
      refine index_of_reads hB' hh' hn hread fun hl' => ?_
      rw [← route_append E.config hl' (bytesRead u.bevs.next post), ← bytesRead_append,
        List.append_assoc]
      exact hroute

theorem spares_read {chunk : List UInt8} (hrc : E.connectRc w.bevs.next = 0) :
    Spares E p w (.read b chunk) where
  client h := h
  backend h := h.1
  dialed _ h := h.2 hrc
  close _ _ := nofun
  closeAll _ := nofun

end

theorem decided_two_chunks :
    let E := Env.single 1 (['h'], 80)
    let es := [.read 0 ((header 1).take 5), .read 0 ((header 1).drop 5 ++ [7])]
    ∃ v w, next E .init (.accept ⟨[], 1⟩) = some v ∧ Run E v es w ∧
      w.log = [Call.idRecv 0 1, Call.connect 0 (['h'], 80)] ∧
      Config.read (fun _ => 0) (.ofString ['1', ' ', 'h', ' ', '8', '0']) = some E.config ∧
      Decided E v es w 0 (bytesRead 0 es) := by
  have hcfg : Config.read (fun _ => 0) (.ofString ['1', ' ', 'h', ' ', '8', '0']) =
      some (Env.single 1 (['h'], 80)).config := by
    rw [Config.read_ofLine (by decide) (by decide), Env.single_config]
    rfl
  refine ⟨_, _, rfl, rfl, rfl, hcfg, decided (u := .init) hcfg (.refl _) rfl rfl rfl ?_⟩
  exact everyStep_cons.2 ⟨spares_read rfl, fun _ _ =>
    everyStep_cons.2 ⟨spares_read rfl, fun _ _ => everyStep_nil⟩⟩

end TcpProxy
