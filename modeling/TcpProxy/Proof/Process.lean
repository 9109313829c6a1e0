import Mathlib.Data.List.ReduceOption
import TcpProxy.Model.Process
import TcpProxy.Proof.Address
import TcpProxy.Proof.Ids

/-!
# Runs of the process

Along the turns of the process the proxy takes the events that the turns are to it (`Turn.Is`): a
callback of a socket, the control message that a body asks for, or nothing. So everything proved
about the runs of the proxy holds in the process (`Process.run_follows`). The process crashes at a
body that throws, and at nothing else; such a body has been acknowledged before. After the loop
nothing is left open (`shutDown_clean`), and `main_exit_iff` lists the ends of `main`.
-/

namespace TcpProxy

open Getopt Libevent Runs

/-- What a turn is to the proxy. -/
inductive Turn.Is (J : Jsoncpp.Impl) : Turn → Option Event → Prop
  | socket (e : Event) : Is J (.socket e) (some e)
  | request {tag : UInt64} {body : List UInt8} {id : Int} (h : Request J body id) :
      Is J (.received tag body)
        (some (.control { id := id, type := if 0 ≤ id then .CLOSE else .CLOSE_ALL }))
  | ignored {tag : UInt64} {body : List UInt8} (h : ∀ id, ¬ Request J body id) :
      Is J (.received tag body) none
  | declared : Is J .declared none
  | channelError : Is J .channelError none
  | listenerError : Is J .listenerError none
  | signal : Is J .signal none

/-- The delivery of a turn, by its tag. -/
def Turn.tag : Turn → Option UInt64
  | .received tag _ => some tag
  | _ => none

/-- The turn delivers a body that throws `e`. -/
def Turn.Crashes (J : Jsoncpp.Impl) (t : Turn) (e : Jsoncpp.Exn) : Prop :=
  ∃ tag body, t = .received tag body ∧ Throws J body e

/-- The turn ends the loop. -/
def Turn.Breaks (t : Turn) : Prop := t = .listenerError ∨ t = .signal

/-- Neither. -/
def Turn.Goes (J : Jsoncpp.Impl) (t : Turn) : Prop := (∀ e, ¬ t.Crashes J e) ∧ ¬ t.Breaks

/-- Where the turns `ts` lead the process. -/
def Phase.After (J : Jsoncpp.Impl) (ts : List Turn) : Phase → Prop
  | .looping => ∀ t ∈ ts, t.Goes J
  | .broken => ∃ pre t, ts = pre ++ [t] ∧ t.Breaks ∧ ∀ u ∈ pre, u.Goes J
  | .crashed c => ∃ e, c = .uncaught e ∧
    ∃ pre t, ts = pre ++ [t] ∧ t.Crashes J e ∧ ∀ u ∈ pre, u.Goes J

/-- What the turns `ts` make of the process. -/
structure Process.Follows (E : Env) (J : Jsoncpp.Impl) (ts : List Turn) (s : Process) : Prop where
  events : ∃ os, List.Forall₂ (Turn.Is J) ts os ∧ TcpProxy.Run E .init os.reduceOption s.world
  acked : s.acked = ts.filterMap Turn.tag
  phase : s.phase.After J ts

section
variable {E : Env} {J : Jsoncpp.Impl} {cmsg : UInt64 → ControlMessage} {w : World}
  {s s' : Process} {t : Turn} {ts : List Turn} {x : Jsoncpp.Exn}

theorem not_request_of_throws {body : List UInt8} (ht : Throws J body x) (id : Int) :
    ¬ Request J body id := by
  intro hq
  have h₁ : JsonParser.parse J ⟨.CLOSE, 0⟩ body = _ := parse_of_throws ht
  rw [parse_of_request hq] at h₁
  cases h₁

/-- A body is a request, throws, or does nothing. -/
theorem onReceived_cases (out : ControlMessage) (body : List UInt8) (h : Reachable E w) :
    (∃ id w', Request J body id ∧ (∀ x, ¬ Throws J body x) ∧
      ControlChannel.onReceived J out body w = .ok w' ∧
      next E w (.control { id := id, type := if 0 ≤ id then .CLOSE else .CLOSE_ALL }) = some w') ∨
    (∃ x, Throws J body x ∧ ControlChannel.onReceived J out body w = .error (.uncaught x)) ∨
    ((∀ id, ¬ Request J body id) ∧ (∀ x, ¬ Throws J body x) ∧
      ControlChannel.onReceived J out body w = .ok w) := by
  obtain ⟨B, hB⟩ := reachable_board h
  by_cases ht : ∃ x, Throws J body x
  · obtain ⟨x, ht⟩ := ht
    refine .inr (.inl ⟨x, ht, ?_⟩)
    simp only [ControlChannel.onReceived, parse_of_throws ht]
  rw [not_exists] at ht
  by_cases hq : ∃ id, Request J body id
  · obtain ⟨id, hq⟩ := hq
    obtain ⟨w', hok, -⟩ := control_refines (E := E) hB
      { id := id, type := if 0 ≤ id then .CLOSE else .CLOSE_ALL }
    refine .inl ⟨id, w', hq, ht, ?_, next_eq.2 ⟨rfl, hok⟩⟩
    have hok : Controller.onControlMessage _ w = .ok w' := hok
    simp only [ControlChannel.onReceived, parse_of_request hq, hok]
    rfl
  · rw [not_exists] at hq
    refine .inr (.inr ⟨hq, ht, ?_⟩)
    simp only [ControlChannel.onReceived, parse_of_neither ht hq]

theorem Turn.crashes_received {tag : UInt64} {body : List UInt8} :
    (Turn.received tag body).Crashes J x ↔ Throws J body x := by
  refine ⟨fun ⟨_, _, h, ht⟩ => ?_, fun ht => ⟨tag, body, rfl, ht⟩⟩
  cases h
  exact ht

/-- A turn crashes the process in one way only. -/
theorem Turn.Crashes.unique {y : Jsoncpp.Exn} (h : t.Crashes J x) (h' : t.Crashes J y) :
    x = y := by
  obtain ⟨tag, body, rfl, ht⟩ := h
  have hx : JsonParser.parse J ⟨.CLOSE, 0⟩ body = .error x := parse_of_throws ht
  rw [parse_of_throws (crashes_received.1 h')] at hx
  exact (Except.error.inj hx).symm

theorem Turn.goes_received {tag : UInt64} {body : List UInt8}
    (h : ∀ x, ¬ Throws J body x) : (Turn.received tag body).Goes J :=
  ⟨fun x ht => h x (crashes_received.1 ht), nofun⟩

theorem Process.next_eq : Process.next E J cmsg s t = some s' ↔
    s.phase = .looping ∧ s.offers t = true ∧ s' = s.turn E J cmsg t := by
  obtain ⟨world, phase, consuming, acked, closing⟩ := s
  rw [Process.next]
  cases phase with
  | looping =>
    refine ⟨fun h => ?_, fun ⟨_, ho, hs⟩ => ?_⟩
    · obtain ⟨ho, h⟩ := Option.ite_none_right_eq_some.1 h
      exact ⟨rfl, ho, (Option.some.inj h).symm⟩
    · subst hs
      exact if_pos ho
  | broken => simp
  | crashed c => simp

/-- **One turn**: the proxy takes the event that the turn is to it, a delivery is acknowledged, and
only a body that throws crashes the process. -/
theorem Process.next_spec (hr : Reachable E s.world)
    (hn : Process.next E J cmsg s t = some s') :
    s'.acked = s.acked ++ t.tag.toList ∧
      (∃ o, Turn.Is J t o ∧ TcpProxy.Run E s.world o.toList s'.world) ∧
      (t.Goes J ∧ s'.phase = .looping ∨ t.Breaks ∧ s'.phase = .broken ∨
        ∃ x, t.Crashes J x ∧ s'.phase = .crashed (.uncaught x)) := by
  obtain ⟨hloop, ho, rfl⟩ := Process.next_eq.1 hn
  have hnone : s.acked = s.acked ++ [] := (List.append_nil _).symm
  cases t with
  | socket e =>
    obtain ⟨B, hB⟩ := reachable_board hr
    obtain ⟨-, ho⟩ := Bool.and_eq_true_iff.1 ho
    obtain ⟨w', hok, -⟩ := handle_refines (E := E) hB ho
    simp only [Process.turn, hok]
    exact ⟨hnone, ⟨_, .socket e, run_single.2 (TcpProxy.next_eq.2 ⟨ho, hok⟩)⟩,
      .inl ⟨⟨nofun, nofun⟩, hloop⟩⟩
  | received tag body =>
    rcases onReceived_cases (J := J) (cmsg tag) body hr with ⟨id, w', hq, ht, hok, hn⟩ |
      ⟨x, ht, hok⟩ | ⟨hq, ht, hok⟩
    · simp only [Process.turn, hok]
      exact ⟨rfl, ⟨_, .request hq, run_single.2 hn⟩, .inl ⟨Turn.goes_received ht, hloop⟩⟩
    · simp only [Process.turn, hok]
      exact ⟨rfl, ⟨_, .ignored (not_request_of_throws ht), rfl⟩,
        .inr (.inr ⟨x, Turn.crashes_received.2 ht, rfl⟩)⟩
    · simp only [Process.turn, hok]
      exact ⟨rfl, ⟨_, .ignored hq, rfl⟩, .inl ⟨Turn.goes_received ht, hloop⟩⟩
  | declared => exact ⟨hnone, ⟨_, .declared, rfl⟩, .inl ⟨⟨nofun, nofun⟩, hloop⟩⟩
  | channelError => exact ⟨hnone, ⟨_, .channelError, rfl⟩, .inl ⟨⟨nofun, nofun⟩, hloop⟩⟩
  | listenerError => exact ⟨hnone, ⟨_, .listenerError, rfl⟩, .inr (.inl ⟨.inl rfl, rfl⟩)⟩
  | signal => exact ⟨hnone, ⟨_, .signal, rfl⟩, .inr (.inl ⟨.inr rfl, rfl⟩)⟩

theorem Process.run_follows (h : Process.Run E J cmsg (.start true) ts s) : s.Follows E J ts := by
  have h0 : (Process.start true).Follows E J [] :=
    ⟨⟨[], .nil, rfl⟩, rfl, fun t ht => absurd ht List.not_mem_nil⟩
  refine Run.history (P := Process.Follows E J) h0 ?_ h
  intro ts s t s' _ hf hn
  obtain ⟨os, hos, hrun⟩ := hf.events
  obtain ⟨hacked, ⟨o, ho, hstep⟩, hphase⟩ := Process.next_spec ⟨_, hrun⟩ hn
  have hgoes : ∀ u ∈ ts, u.Goes J := by
    have hp := hf.phase
    rw [(Process.next_eq.1 hn).1] at hp
    exact hp
  refine ⟨⟨os ++ [o], List.rel_append hos (.cons ho .nil), ?_⟩, ?_, ?_⟩
  · have ho : [o].reduceOption = o.toList := by cases o <;> rfl
    rw [List.reduceOption_append, ho]
    exact run_append.2 ⟨_, hrun, hstep⟩
  · rw [hacked, hf.acked, List.filterMap_append]
    cases t <;> rfl
  · rcases hphase with ⟨ht, hp⟩ | ⟨ht, hp⟩ | ⟨x, ht, hp⟩
    · rw [hp]
      intro u hu
      rcases List.mem_append.1 hu with hu | hu
      · exact hgoes u hu
      · obtain rfl := List.mem_singleton.1 hu
        exact ht
    · rw [hp]
      exact ⟨ts, t, rfl, ht, hgoes⟩
    · rw [hp]
      exact ⟨x, rfl, ts, t, rfl, ht, hgoes⟩

/-- **The process is the proxy**: whatever turns it takes, the proxy has taken the events that these
are to it, and each delivery has been acknowledged once, in order. -/
theorem Process.refines_proxy (h : Process.Run E J cmsg (.start true) ts s) :
    (∃ os, List.Forall₂ (Turn.Is J) ts os ∧ TcpProxy.Run E .init os.reduceOption s.world) ∧
      s.acked = ts.filterMap Turn.tag := by
  have hf := run_follows h
  exact ⟨hf.events, hf.acked⟩

/-- A client sends its id; a message is cut short; the next one closes the id; a signal is
caught. -/
theorem Process.refines_proxy_close :
    let E := Env.single 1 (['h'], 80)
    let J := readerOf (closeBody 1) (closeValue 1)
    let ts := [.declared, .socket (.accept ⟨[], 1⟩), .socket (.read 0 (header 1)),
      .received 7 [0x7B], .received 8 (closeBody 1), .signal]
    ∃ s, Process.Run E J (fun _ => ⟨.CLOSE, 0⟩) (.start true) ts s ∧ s.world.cm.processors = [] ∧
      (∃ os, List.Forall₂ (Turn.Is J) ts os ∧ TcpProxy.Run E .init os.reduceOption s.world) ∧
      s.acked = [7, 8] := by
  intro E J ts
  have hlast : (exec (Process.next E J fun _ => ⟨.CLOSE, 0⟩) (.start true) ts).any
      (fun s => s.world.cm.processors.isEmpty) = true := by decide +kernel
  obtain ⟨s, h, hp⟩ := (Option.any_eq_true _ _).1 hlast
  exact ⟨s, h, List.isEmpty_iff.1 hp, Process.refines_proxy h⟩

/-- **The process crashes at a body that throws, and at nothing else**: no fault is ever met, and
the message that crashes it has been acknowledged. -/
theorem Process.crashes_iff (h : Process.Run E J cmsg (.start true) ts s) (c : Crash) :
    s.phase = .crashed c ↔ ∃ x, c = .uncaught x ∧
      ∃ pre tag body, ts = pre ++ [.received tag body] ∧ Throws J body x ∧
        s.acked = pre.filterMap Turn.tag ++ [tag] := by
  have hf := run_follows h
  refine ⟨fun hc => ?_, fun ⟨x, hx, pre, tag, body, hts, ht, _⟩ => ?_⟩
  · have hp := hf.phase
    rw [hc] at hp
    obtain ⟨x, rfl, pre, t, rfl, ⟨tag, body, rfl, ht⟩, -⟩ := hp
    exact ⟨x, rfl, pre, tag, body, rfl, ht, by rw [hf.acked, List.filterMap_append]; rfl⟩
  · subst hx hts
    have hcr : (Turn.received tag body).Crashes J x := Turn.crashes_received.2 ht
    obtain ⟨u, hu, hn⟩ := run_concat.1 h
    obtain ⟨os, -, hrun⟩ := (run_follows hu).events
    obtain ⟨-, -, ⟨hg, -⟩ | ⟨hb, -⟩ | ⟨y, hy, hp⟩⟩ := Process.next_spec ⟨_, hrun⟩ hn
    · exact absurd hcr (hg.1 x)
    · exact absurd hb nofun
    · exact hcr.unique hy ▸ hp

theorem Process.crashes_iff_array :
    let J := readerOf [0x5B, 0x5D] (.array [])
    ∃ s, Process.Run (.single 1 (['h'], 80)) J (fun _ => ⟨.CLOSE, 0⟩) (.start true)
        [.declared, .received 5 [0x5B, 0x5D]] s ∧
      s.phase = .crashed (.uncaught .logicError) := by
  intro J
  obtain ⟨s, h⟩ : ∃ s, Process.Run (.single 1 (['h'], 80)) J (fun _ => ⟨.CLOSE, 0⟩) (.start true)
      [.declared, .received 5 [0x5B, 0x5D]] s := ⟨_, rfl⟩
  have ht : Throws J [0x5B, 0x5D] .logicError := .root (readerOf_body _ _) rfl
  exact ⟨s, h, (Process.crashes_iff h _).2
    ⟨_, rfl, [.declared], 5, _, rfl, ht, (run_follows h).acked⟩⟩

/-! ## The end -/

/-- Nothing is connected, open or filed. -/
structure World.Empty (w : World) : Prop where
  processors : w.cm.processors = []
  proxies : ∀ p, w.proxies.get p = none
  bevs : ∀ b, w.bevs.get b = none
  index : w.pm.idToConn = []

/-- **After the loop everything is closed** before the event base is freed, and the destructor of
the `ProxyManager`, which closes once more, finds nothing. -/
theorem shutDown_clean (h : Reachable E w) :
    ∃ w', closeAll w = .ok w' ∧ w'.Empty ∧ shutDown w = .ok w' := by
  obtain ⟨B, hB⟩ := reachable_board h
  obtain ⟨w', hok, hr, hnil⟩ := dropAll_refines hB
  have hnone : ∀ p, B.closeAll.sessions.get p = none := hr.stopped rfl
  have hempty : w'.Empty :=
    { processors := hnil
      proxies := fun p => hr.gone (hnone p)
      bevs := fun b => by
        rcases hX : w'.bevs.get b with _ | X
        · rfl
        · obtain ⟨p, s, hs, -⟩ := hr.owned b X hX
          rw [hnone] at hs
          cases hs
      index := hr.index }
  refine ⟨w', hok, hempty, ?_⟩
  have hagain : ProxyManager.dropAll w' = .ok w' := by
    have hrun := hr.running
    have hmutex := hr.mutex
    have hlock := hr.lock
    have hindex := hempty.index
    obtain ⟨bevs, proxies, ⟨processors, mutex, running⟩, ⟨idToConn, lock⟩, log⟩ := w'
    subst hnil hrun hmutex hlock hindex
    rfl
  have hclose : closeAll w = .ok w' := hok
  rw [shutDown, hclose]
  exact hagain

end

theorem shutDown_clean_header : ∃ w w', Run (.single 1 (['h'], 80)) .init
    [.accept ⟨[], 1⟩, .read 0 (header 1)] w ∧
      closeAll w = .ok w' ∧ w'.Empty ∧ shutDown w = .ok w' := by
  obtain ⟨w, h⟩ : ∃ w, Run (.single 1 (['h'], 80)) .init
      [.accept ⟨[], 1⟩, .read 0 (header 1)] w := ⟨_, rfl⟩
  obtain ⟨w', hw'⟩ := shutDown_clean ⟨_, h⟩
  exact ⟨w, w', h, hw'⟩

/-! ## The set-up -/

/-- The command line asks for the settings `cfg`. -/
def Asks (argv : List Arg) (cfg : Config.Settings) : Prop :=
  ∃ is, Writes Config.optstring (argv.drop 1) is ∧ .opt 'h' none ∉ is ∧ cfg = Config.settingsOf is

/-- Every line of the text carries an entry, or slips. -/
def Readable (text : List Char) : Prop :=
  ∀ line ∈ Config.linesOf text, (∃ e, Config.Carries line e) ∨ Config.SlipsLine line

/-- The text starts with a protocol. -/
def HasProtocol (text : List Char) : Prop := ∃ secure rest, text = AMQP.protocolText secure ++ rest

/-- The settings are asked for, and within the range of `toPriority`. -/
structure Configured (S : Surroundings) (argv : List Arg) (cfg : Config.Settings) : Prop where
  base : S.base = true
  asks : Asks argv cfg
  verbosity : 0 ≤ cfg.verbosity

/-- The set-up ends the process. -/
inductive Refused (S : Surroundings) (argv : List Arg) : Exit → Prop
  | base (h : S.base = false) : Refused S argv (.status (-1))
  | usage (h : ∀ cfg, ¬ Asks argv cfg) : Refused S argv (.status (-1))
  | verbosity {cfg : Config.Settings} (hb : S.base = true) (ha : Asks argv cfg)
      (h : cfg.verbosity < 0) : Refused S argv .outOfBounds
  | hosts {cfg : Config.Settings} (hc : Configured S argv cfg)
      (h : ∀ text, S.file cfg.cfgFile = some text → ¬ Readable text) :
      Refused S argv (.status (-3))
  | port {cfg : Config.Settings} {text : List Char} (hc : Configured S argv cfg)
      (hf : S.file cfg.cfgFile = some text) (hr : Readable text) (h : S.bind cfg.port = false) :
      Refused S argv (.status (-4))
  | address {cfg : Config.Settings} {text : List Char} (hc : Configured S argv cfg)
      (hf : S.file cfg.cfgFile = some text) (hr : Readable text) (hp : S.bind cfg.port = true)
      (h : ¬ HasProtocol cfg.rmqStr) : Refused S argv .badAddress

/-- The set-up comes to the loop. -/
structure Starts (S : Surroundings) (argv : List Arg) (setup : Setup) : Prop where
  configured : Configured S argv setup.cfg
  priority : toPriority setup.cfg.verbosity = some setup.priority
  hosts : Config.read S.unset (S.ifstream setup.cfg.cfgFile) = some setup.hosts
  port : S.bind setup.cfg.port = true
  address : AMQP.Address.ofText setup.cfg.rmqStr = some setup.address

section
variable {S : Surroundings} {argv : List Arg} {cfg : Config.Settings} {e : Exit}
  {setup : Setup}

theorem asks_iff : Config.parseCmdLine argv = some cfg ↔ Asks argv cfg := by
  refine ⟨Config.writes_of_parse, fun ⟨is, hw, hh, hcfg⟩ => ?_⟩
  subst hcfg
  exact Config.parse_of_writes hw hh

theorem toPriority_eq_none {l : Int} : toPriority l = none ↔ l < 0 := by
  have hl : l < 0 ∨ l = 0 ∨ l = 1 ∨ l = 2 ∨ l = 3 ∨ 3 < l := by omega
  rcases hl with hl | rfl | rfl | rfl | rfl | hl
  · have h3 : ¬ 3 < l := by omega
    simp [toPriority, hl, h3]
  · decide
  · decide
  · decide
  · decide
  · have h0 : ¬ l < 0 := by omega
    simp [toPriority, hl, h0]

theorem read_eq_none {name : List Char} :
    Config.read S.unset (S.ifstream name) = none ↔
      ∀ text, S.file name = some text → ¬ Readable text := by
  rw [Surroundings.ifstream]
  rcases S.file name with _ | text
  · exact iff_of_true rfl nofun
  · have hr : (Config.read S.unset (.ofString text)).isSome ↔ Readable text :=
      Config.read_isSome_iff
    simp [← hr]

theorem read_of_readable {name text : List Char} (hf : S.file name = some text)
    (hr : Readable text) : ∃ hosts, Config.read S.unset (S.ifstream name) = some hosts := by
  by_contra hc
  exact read_eq_none.1 (Option.eq_none_iff_forall_ne_some.2 (not_exists.1 hc)) text hf hr

theorem readable_of_read {name : List Char} {hosts : Config.Hosts}
    (h : Config.read S.unset (S.ifstream name) = some hosts) :
    ∃ text, S.file name = some text ∧ Readable text := by
  by_contra hc
  rw [read_eq_none.2 fun text hf hr => hc ⟨text, hf, hr⟩] at h
  cases h

theorem Configured.priority (h : Configured S argv cfg) :
    ∃ priority, toPriority cfg.verbosity = some priority := by
  by_contra hc
  have hv := toPriority_eq_none.1 (Option.eq_none_iff_forall_ne_some.2 (not_exists.1 hc))
  exact absurd h.verbosity (by omega)

theorem ofText_eq_none {text : List Char} :
    AMQP.Address.ofText text = none ↔ ¬ HasProtocol text := by
  rw [AMQP.Address.ofText, Option.map_eq_none_iff]
  refine ⟨fun h hp => ?_, fun h => ?_⟩
  · obtain ⟨secure, rest, rfl⟩ := hp
    rw [AMQP.protocol_text] at h
    cases h
  · rw [AMQP.protocol, if_neg, if_neg]
    · intro hp
      obtain ⟨rest, hrest⟩ := List.isPrefixOf_iff_prefix.1 hp
      exact h ⟨false, rest, hrest.symm⟩
    · intro hp
      obtain ⟨rest, hrest⟩ := List.isPrefixOf_iff_prefix.1 hp
      exact h ⟨true, rest, hrest.symm⟩

theorem Refused.setUp_eq (h : Refused S argv e) : setUp S argv = .error e := by
  cases h with
  | base hb => simp [setUp, hb]
  | usage hu =>
    have hc : Config.parseCmdLine argv = none :=
      Option.eq_none_iff_forall_ne_some.2 fun cfg hc => hu cfg (asks_iff.1 hc)
    rcases hb : S.base with _ | _
    · simp [setUp, hb]
    · simp [setUp, hb, hc, orExit, bind, Except.bind]
  | verbosity hb ha hv =>
    simp [setUp, hb, asks_iff.2 ha, toPriority_eq_none.2 hv, orExit, bind, Except.bind]
  | hosts hc hr =>
    obtain ⟨priority, hp⟩ := hc.priority
    simp [setUp, hc.base, asks_iff.2 hc.asks, hp, read_eq_none.2 hr, orExit, bind, Except.bind]
  | port hc hf hr hp =>
    obtain ⟨priority, hpr⟩ := hc.priority
    obtain ⟨hosts, hh⟩ := read_of_readable hf hr
    simp [setUp, hc.base, asks_iff.2 hc.asks, hpr, hh, hp, orExit, bind, Except.bind]
  | address hc hf hr hp ha =>
    obtain ⟨priority, hpr⟩ := hc.priority
    obtain ⟨hosts, hh⟩ := read_of_readable hf hr
    simp [setUp, hc.base, asks_iff.2 hc.asks, hpr, hh, hp, ofText_eq_none.2 ha, orExit, bind,
      Except.bind]

theorem Starts.setUp_eq (h : Starts S argv setup) : setUp S argv = .ok setup := by
  simp [setUp, h.configured.base, asks_iff.2 h.configured.asks, h.priority, h.hosts, h.port,
    h.address, orExit, bind, Except.bind]

/-- The set-up is refused, or starts the proxy. -/
theorem refused_or_starts (S : Surroundings) (argv : List Arg) :
    (∃ e, Refused S argv e) ∨ ∃ setup, Starts S argv setup := by
  rcases hb : S.base with _ | _
  · exact .inl ⟨_, .base hb⟩
  rcases hcfg : Config.parseCmdLine argv with _ | cfg
  · refine .inl ⟨_, .usage fun cfg ha => ?_⟩
    rw [asks_iff.2 ha] at hcfg
    cases hcfg
  have ha := asks_iff.1 hcfg
  rcases hpr : toPriority cfg.verbosity with _ | priority
  · exact .inl ⟨_, .verbosity hb ha (toPriority_eq_none.1 hpr)⟩
  have hv : 0 ≤ cfg.verbosity := by
    by_contra hv
    rw [toPriority_eq_none.2 (by omega)] at hpr
    cases hpr
  have hc : Configured S argv cfg := ⟨hb, ha, hv⟩
  rcases hh : Config.read S.unset (S.ifstream cfg.cfgFile) with _ | hosts
  · exact .inl ⟨_, .hosts hc (read_eq_none.1 hh)⟩
  obtain ⟨text, hf, hr⟩ := readable_of_read hh
  rcases hp : S.bind cfg.port with _ | _
  · exact .inl ⟨_, .port hc hf hr hp⟩
  rcases had : AMQP.Address.ofText cfg.rmqStr with _ | address
  · exact .inl ⟨_, .address hc hf hr hp (ofText_eq_none.1 had)⟩
  · exact .inr ⟨⟨cfg, priority, hosts, address⟩, hc, hpr, hh, hp, had⟩

/-- **When `main` comes to its loop**, and why it does not. -/
theorem setUp_iff : (∀ e, setUp S argv = .error e ↔ Refused S argv e) ∧
    ∀ setup, setUp S argv = .ok setup ↔ Starts S argv setup := by
  refine ⟨fun e => ⟨fun h => ?_, Refused.setUp_eq⟩, fun setup => ⟨fun h => ?_, Starts.setUp_eq⟩⟩
  · rcases refused_or_starts S argv with ⟨e', he⟩ | ⟨setup, hs⟩
    · rw [he.setUp_eq] at h
      exact Except.error.inj h ▸ he
    · rw [hs.setUp_eq] at h
      cases h
  · rcases refused_or_starts S argv with ⟨e, he⟩ | ⟨setup', hs⟩
    · rw [he.setUp_eq] at h
      cases h
    · rw [hs.setUp_eq] at h
      exact Except.ok.inj h ▸ hs

/-! ## The exit status -/

/-- The end of the process, by what it starts from and the turns of its loop. -/
inductive Ends (S : Surroundings) (J : Jsoncpp.Impl) (cmsg : UInt64 → ControlMessage)
    (argv : List Arg) (ts : List Turn) : Exit → Prop
  | refused {e : Exit} (h : Refused S argv e) : Ends S J cmsg argv ts e
  | skipped {setup : Setup} (h : Starts S argv setup) (hr : S.run = false) (hts : ts = []) :
      Ends S J cmsg argv ts (.status 0)
  | stopped {setup : Setup} {s : Process} (h : Starts S argv setup) (hr : S.run = true)
      (hrun : Process.Run ⟨setup.hosts, S.connectRc⟩ J cmsg (.start true) ts s)
      (ht : ∃ t, ts.getLast? = some t ∧ t.Breaks) : Ends S J cmsg argv ts (.status 0)
  | crashed {setup : Setup} {s : Process} (h : Starts S argv setup) (hr : S.run = true)
      (hrun : Process.Run ⟨setup.hosts, S.connectRc⟩ J cmsg (.start true) ts s)
      {x : Jsoncpp.Exn} (ht : ∃ t, ts.getLast? = some t ∧ t.Crashes J x) :
      Ends S J cmsg argv ts (.crash (.uncaught x))

variable {E : Env} {J : Jsoncpp.Impl} {cmsg : UInt64 → ControlMessage} {s : Process} {t : Turn}
  {ts : List Turn} {x : Jsoncpp.Exn}

theorem Turn.not_crashes_of_breaks (h : t.Breaks) : ¬ t.Crashes J x := by
  rintro ⟨tag, body, rfl, -⟩
  rcases h with h | h <;> cases h

/-- The process is done after a turn that breaks the loop, and after one that crashes it. -/
theorem Process.exit_iff (h : Process.Run E J cmsg (.start true) ts s) : s.exit = some e ↔
    e = .status 0 ∧ (∃ t, ts.getLast? = some t ∧ t.Breaks) ∨
      ∃ x, e = .crash (.uncaught x) ∧ ∃ t, ts.getLast? = some t ∧ t.Crashes J x := by
  have hf := run_follows h
  have hp := hf.phase
  rw [Process.exit]
  rcases hs : s.phase with _ | _ | c <;> rw [hs] at hp
  · -- no turn has ended the loop
    refine iff_of_false nofun ?_
    rintro (⟨-, t, ht, hb⟩ | ⟨x, -, t, ht, hc⟩)
    · exact (hp t (List.mem_of_getLast? ht)).2 hb
    · exact (hp t (List.mem_of_getLast? ht)).1 x hc
  · obtain ⟨os, -, hrun⟩ := hf.events
    obtain ⟨w', -, -, hok⟩ := shutDown_clean ⟨_, hrun⟩
    obtain ⟨pre, t, rfl, hb, -⟩ := hp
    have hnot : ∀ x, ¬ t.Crashes J x := fun x => Turn.not_crashes_of_breaks hb
    simp [hok, hb, hnot, eq_comm]
  · obtain ⟨x, rfl, pre, t, rfl, hc, -⟩ := hp
    have hnot : ¬ t.Breaks := fun hb => Turn.not_crashes_of_breaks hb hc
    have honly : ∀ y, t.Crashes J y ↔ y = x := fun y => ⟨fun hy => hy.unique hc, fun hy => hy ▸ hc⟩
    simp [honly, hnot, eq_comm]

/-- A signal caught before `main` tests `run` leaves nothing for the loop to do. -/
theorem exec_broken : Runs.exec (Process.next E J cmsg) (.start false) ts =
    if ts = [] then some (.start false) else none := by
  cases ts <;> rfl

theorem main_of_starts (h : Starts S argv setup) : main S J cmsg argv ts =
    (Runs.exec (Process.next ⟨setup.hosts, S.connectRc⟩ J cmsg) (.start S.run) ts).bind
      Process.exit := by
  rw [main, h.setUp_eq]

theorem Ends.main_eq (h : Ends S J cmsg argv ts e) : main S J cmsg argv ts = some e := by
  cases h with
  | refused h => rw [main, h.setUp_eq]
  | skipped h hr hts =>
    rw [main_of_starts h, hr, hts]
    rfl
  | stopped h hr hrun ht =>
    rw [main_of_starts h, hr, hrun]
    exact (Process.exit_iff hrun).2 (.inl ⟨rfl, ht⟩)
  | crashed h hr hrun ht =>
    rw [main_of_starts h, hr, hrun]
    exact (Process.exit_iff hrun).2 (.inr ⟨_, rfl, ht⟩)

/-- **How the process ends**: with a status that says why it was not started, with 0 once a signal
or an error of the listener has ended the loop, or with the exception of a body that throws; never
by a fault. -/
theorem main_exit_iff : main S J cmsg argv ts = some e ↔ Ends S J cmsg argv ts e := by
  refine ⟨fun h => ?_, Ends.main_eq⟩
  rcases refused_or_starts S argv with ⟨e', he⟩ | ⟨setup, hs⟩
  · rw [main, he.setUp_eq] at h
    exact Option.some.inj h ▸ .refused he
  · rw [main_of_starts hs, Option.bind_eq_some_iff] at h
    obtain ⟨s, hrun, hexit⟩ := h
    rcases hr : S.run with _ | _
    · rw [hr, exec_broken] at hrun
      split at hrun
      · rename_i hts
        obtain rfl := Option.some.inj hrun
        obtain rfl : Exit.status 0 = e := Option.some.inj hexit
        exact .skipped hs hr hts
      · cases hrun
    · rw [hr] at hrun
      rcases (Process.exit_iff hrun).1 hexit with ⟨rfl, ht⟩ | ⟨x, rfl, ht⟩
      · exact .stopped hs hr hrun ht
      · exact .crashed hs hr hrun ht

end

end TcpProxy
