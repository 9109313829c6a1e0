import TcpProxy.Proof.Frame
import TcpProxy.Proof.Messages
import TcpProxy.Proof.Tables
import TcpProxy.Proof.Teardown

/-!
# The three readings of an id

The id of a client is written in the table, in the client's header and in the message that closes
it. A client that sends the header of a configured id is led to the id's backend and filed under
the id, and the message that names the id is parsed to it (`id_agrees`). A message with an id that
is not negative closes the clients filed under it; a negative id stands for all clients in a
message, though it is an id like any other in the table and on the wire (`negative_id_closes_all`).
-/

namespace TcpProxy

open Libevent Jsoncpp

/-- With the event the client `p` has sent the header of the id `k`. -/
def SendsHeader (w : World) (p : ProxyPtr) (k : Int) : Event → Prop
  | .read b chunk => ∃ X, w.bevs.get b = some X ∧ X.ctx = .proxy p ∧ InState w p .BEGIN ∧
      header k <+: X.input ++ chunk
  | _ => False

/-- The client `p` is filed under the id `k` and is to be connected to `host`. -/
structure LedTo (w : World) (p : ProxyPtr) (k : Int) (host : Config.Host) : Prop where
  connected : p ∈ w.cm.processors
  filed : (k, p) ∈ w.pm.idToConn
  object : ∃ px f, w.proxies.get p = some px ∧ px.id = k ∧ px.state = .CONNECTING ∧
    px.fwd = some f ∧ f.host = host.1 ∧ f.port = host.2

/-- The body `{"client_id": k, "job": "close_sockets"}`. -/
def closeBody (k : Int) : List UInt8 :=
  ("\x7b\"client_id\": ".toList ++ IStream.decimal k ++
    ", \"job\": \"close_sockets\"\x7d".toList).map Char.toUInt8

/-- What that text is a text of. -/
def closeValue (k : Int) : Value :=
  .object [("client_id", .int (Int64.ofInt k)), ("job", .string "close_sockets")]

/-- What the header of the id `k` and the message that names it do. -/
structure IdAgrees (E : Env) (J : Impl) (k : Int) (host : Config.Host) : Prop where
  wire : ∀ w p e, Reachable E w → offers w e = true → SendsHeader w p k e →
    ∃ w', next E w e = some w' ∧ w'.log = w.log ++ [Call.idRecv p k, Call.connect p host] ∧
      (E.connectRc w.bevs.next = 0 → LedTo w' p k host) ∧
      (E.connectRc w.bevs.next ≠ 0 → Gone w' p)
  parsed : ∀ out, JsonParser.parse J out (closeBody k) =
    .ok (true, { id := k, type := if 0 ≤ k then .CLOSE else .CLOSE_ALL })
  closes : 0 ≤ k → ∀ cmsg w, Reachable E w → ∃ w', ProxyManager.dropById k w = .ok w' ∧
    ControlChannel.onReceived J cmsg (closeBody k) w = .ok w' ∧
    w'.pm.idToConn = Multimap.erase w.pm.idToConn k ∧
    (∀ p, (k, p) ∈ w.pm.idToConn → p ∉ w'.cm.processors) ∧
    ∀ q ∈ w.cm.processors, (∀ px, w.proxies.get q = some px → px.id ≠ k) → Untouched w w' q
  closesAll : k < 0 → ∀ cmsg w, Reachable E w → ∃ w', ProxyManager.dropAll w = .ok w' ∧
    ControlChannel.onReceived J cmsg (closeBody k) w = .ok w' ∧ w'.cm.processors = []

section
variable {E : Env} {J : Impl} {w w' : World} {B : Board} {p : ProxyPtr} {s : Session} {e : Event}
  {k : Int} {host : Config.Host}

/-! ## On the wire -/

theorem SendsHeader.completes (hn : Config.Named E.config) (hlo : Config.INT_MIN ≤ k)
    (hhi : k ≤ Config.INT_MAX) (hk : E.config k = some host) (h : SendsHeader w p k e) :
    Completes E w p (some (k, host)) e := by
  cases e with
  | read b chunk =>
    obtain ⟨X, hX, hctx, hst, hpre⟩ := h
    have hl : 12 ≤ (X.input ++ chunk).length := hpre.length_le
    refine ⟨X, hX, hctx, hst, hl, (route_eq_some hn hl).2 ⟨hlo, ?_, hpre, hk⟩⟩
    exact Int.lt_of_le_sub_one hhi
  | _ => exact h.elim

/-- A header that leads to a backend is reported, and its client is connected and filed, or
dropped where `connect` returns false. -/
theorem completes_led (h : Represents w B) (hs : B.sessions.get p = some s)
    (hc : Completes E w p (some (k, host)) e) (hn : next E w e = some w') :
    w'.log = w.log ++ [Call.idRecv p k, Call.connect p host] ∧
      (E.connectRc w.bevs.next = 0 → LedTo w' p k host) ∧
      (E.connectRc w.bevs.next ≠ 0 → Gone w' p) := by
  have h' := next_refines h hn
  obtain ⟨bs, hstep⟩ := Board.step_admits hs ((admits_iff h hs).2 ⟨hc, rfl⟩)
  rw [hstep] at h'
  refine ⟨?_, fun hrc => ?_, fun hrc => ?_⟩
  · rw [h'.log, h.log]
    split <;> rfl
  · rw [if_pos (decide_eq_true hrc)] at h'
    have hs' : ((B.register p k host).put p (s.dial k host B.nextSock bs)).sessions.get p =
        some (s.dial k host B.nextSock bs) := Heap.get_set_self hs _
    refine ⟨h'.mem_processors hs', ?_, _, _, h'.object hs', rfl, rfl, rfl, rfl, rfl⟩
    rw [h'.index]
    exact Multimap.mem_insert.2 (.inr rfl)
  · rw [decide_eq_false hrc, if_neg Bool.false_ne_true] at h'
    exact h'.gone_iff.2 (Heap.get_free_self _ _)

/-! ## In a message -/

theorem toInt?_closeValue (hlo : Config.INT_MIN ≤ k) (hhi : k ≤ Config.INT_MAX) :
    (Value.int (Int64.ofInt k)).toInt? = some k := by
  have hk : (Int64.ofInt k).toInt = k := by
    unfold Config.INT_MIN at hlo
    unfold Config.INT_MAX at hhi
    exact Int64.toInt_ofInt_of_le (by omega) (by omega)
  rw [Value.toInt?, hk]
  exact if_pos ⟨hlo, hhi⟩

theorem request_closeBody (hJ : J.parseFromStream (closeBody k) = .ok (some (closeValue k)))
    (hlo : Config.INT_MIN ≤ k) (hhi : k ≤ Config.INT_MAX) : Request J (closeBody k) k :=
  ⟨_, _, hJ, rfl, rfl, by nofun, toInt?_closeValue hlo hhi⟩

theorem onReceived_of_request {cmsg : ControlMessage} {body : List UInt8}
    (h : Request J body k) : ControlChannel.onReceived J cmsg body w =
      (Controller.onControlMessage
        { id := k, type := if 0 ≤ k then .CLOSE else .CLOSE_ALL } w).mapError .fault := by
  simp only [ControlChannel.onReceived, parse_of_request h]

theorem onReceived_close (cmsg : ControlMessage) {body : List UInt8} (hq : Request J body k)
    (h0 : 0 ≤ k) (h : Reachable E w) : ∃ w', ProxyManager.dropById k w = .ok w' ∧
    ControlChannel.onReceived J cmsg body w = .ok w' ∧
    w'.pm.idToConn = Multimap.erase w.pm.idToConn k ∧
    (∀ p, (k, p) ∈ w.pm.idToConn → p ∉ w'.cm.processors) ∧
    ∀ q ∈ w.cm.processors, (∀ px, w.proxies.get q = some px → px.id ≠ k) → Untouched w w' q := by
  obtain ⟨B, hB, hF⟩ := reachable_filed h
  obtain ⟨w', hok, hB', -⟩ := dropById_refines hB k
  refine ⟨w', hok, ?_, hB'.index.trans (by rw [hB.index]; rfl), fun p hp => ?_,
    fun q hq hid => hB.untouched_close hF hB' hq hid⟩
  · rw [onReceived_of_request hq, if_pos h0]
    show (ProxyManager.dropById k w).mapError Crash.fault = _
    rw [hok]
    rfl
  · rw [hB.index] at hp
    apply hB'.not_mem_of_gone
    rw [Board.close_get, if_pos hp]

theorem onReceived_closeAll (cmsg : ControlMessage) {body : List UInt8} (hq : Request J body k)
    (h0 : k < 0) (h : Reachable E w) : ∃ w', ProxyManager.dropAll w = .ok w' ∧
    ControlChannel.onReceived J cmsg body w = .ok w' ∧ w'.cm.processors = [] := by
  obtain ⟨B, hB⟩ := reachable_board h
  obtain ⟨w', hok, -, hnil⟩ := dropAll_refines hB
  refine ⟨w', hok, ?_, hnil⟩
  rw [onReceived_of_request hq, if_neg (Int.not_le.2 h0)]
  show (ProxyManager.dropAll w).mapError Crash.fault = _
  rw [hok]
  rfl

/-- **The readings of a configured id agree**, but for what a negative one means in a message. -/
theorem id_agrees {unset : Nat → UInt16} {text : IStream}
    (hcfg : Config.read unset text = some E.config) (hk : E.config k = some host)
    (hJ : J.parseFromStream (closeBody k) = .ok (some (closeValue k))) : IdAgrees E J k host := by
  obtain ⟨hlo, hhi⟩ := Config.read_int hcfg k host hk
  have hq : Request J (closeBody k) k := request_closeBody hJ hlo hhi
  refine ⟨fun w p e h ho hsend => ?_, fun out => parse_of_request hq,
    fun h0 cmsg w h => onReceived_close cmsg hq h0 h,
    fun h0 cmsg w h => onReceived_closeAll cmsg hq h0 h⟩
  obtain ⟨B, hB⟩ := reachable_board h
  have hc : Completes E w p (some (k, host)) e :=
    hsend.completes (Config.read_named hcfg) hlo hhi hk
  obtain ⟨s, hs⟩ := hB.session_of_completes hc
  obtain ⟨w', hok, -⟩ := handle_refines (E := E) hB ho
  have hn : next E w e = some w' := next_eq.2 ⟨ho, hok⟩
  exact ⟨w', hn, completes_led hB hs hc hn⟩

end

/-- A jsoncpp for which `body` is the only text of a value. -/
def readerOf (body : List UInt8) (root : Value) : Impl where
  parseFromStream data := .ok (if data = body then some root else none)
  numberText _ := "0"
  numberText_chars _ c hc := by
    obtain rfl : c = '0' := by simpa using hc
    rfl

theorem readerOf_body (body : List UInt8) (root : Value) :
    (readerOf body root).parseFromStream body = .ok (some root) :=
  congrArg Except.ok (if_pos rfl)

theorem id_agrees_one : ∃ J : Impl, J.parseFromStream (closeBody 1) = .ok (some (closeValue 1)) ∧
    IdAgrees (.single 1 (['h'], 80)) J 1 (['h'], 80) := by
  have hcfg : Config.read (fun _ => 0) (.ofString ['1', ' ', 'h', ' ', '8', '0']) =
      some (Env.single 1 (['h'], 80)).config := by
    rw [Config.read_ofLine (by decide) (by decide), Env.single_config]
    rfl
  exact ⟨readerOf (closeBody 1) (closeValue 1), readerOf_body _ _,
    id_agrees hcfg rfl (readerOf_body _ _)⟩

/-- The table has the ids -5 and 1, each with a client: the message that names -5 drops both. -/
theorem negative_id_closes_all : ∃ (J : Impl) (E : Env) (w : World),
    Config.read (fun _ => 0) (.ofString ['-', '5', ' ', 'h', ' ', '8', '0', '\n', '1', ' ', 'g',
      ' ', '8', '1']) = some E.config ∧
    J.parseFromStream (closeBody (-5)) = .ok (some (closeValue (-5))) ∧
    Run E .init [.accept ⟨[], 1⟩, .accept ⟨[], 2⟩, .read 0 (header (-5)), .read 1 (header 1)] w ∧
    w.log = [Call.idRecv 0 (-5), Call.connect 0 (['h'], 80), Call.idRecv 1 1,
      Call.connect 1 (['g'], 81)] ∧
    w.pm.idToConn = [(-5, 0), (1, 1)] ∧ 1 ∈ w.cm.processors ∧
    ∀ cmsg, ∃ w', ControlChannel.onReceived J cmsg (closeBody (-5)) w = .ok w' ∧
      1 ∉ w'.cm.processors := by
  let a : Config.Entry :=
    ⟨-5, ['h'], 80, by decide, by decide, by decide, List.forall_mem_singleton.2 rfl⟩
  let b : Config.Entry :=
    ⟨1, ['g'], 81, by decide, by decide, by decide, List.forall_mem_singleton.2 rfl⟩
  have hcfg := Config.read_render_eq (fun _ => 0) [some a, some b]
  have htext : Config.render [some a, some b] = ['-', '5', ' ', 'h', ' ', '8', '0', '\n', '1', ' ',
    'g', ' ', '8', '1'] := by decide
  rw [htext] at hcfg
  let E : Env := ⟨Config.tableOf [a, b], fun _ => 0⟩
  let J : Impl := readerOf (closeBody (-5)) (closeValue (-5))
  have hJ : J.parseFromStream (closeBody (-5)) = .ok (some (closeValue (-5))) := readerOf_body _ _
  have hq : Request J (closeBody (-5)) (-5) := request_closeBody hJ (by decide) (by decide)
  have hclose : ∀ w, Reachable E w → ∀ cmsg, ∃ w',
      ControlChannel.onReceived J cmsg (closeBody (-5)) w = .ok w' ∧ 1 ∉ w'.cm.processors := by
    intro w h cmsg
    obtain ⟨w', -, hok, hnil⟩ := onReceived_closeAll cmsg hq (by decide) h
    exact ⟨w', hok, hnil ▸ List.not_mem_nil⟩
  have hrun : Run E .init [.accept ⟨[], 1⟩, .accept ⟨[], 2⟩, .read 0 (header (-5)),
    .read 1 (header 1)] _ := rfl
  exact ⟨J, E, _, hcfg, hJ, hrun, rfl, rfl, by decide, hclose _ ⟨_, hrun⟩⟩

end TcpProxy
