import TcpProxy.Proof.Process
import TcpProxy.Spec.Route

/-!
# Where the process connects

A client makes two calls or none: it reports the id its header names, and calls `connect` with the
host the table has for it (`Board.Dialed`). So whatever its clients send, the process connects to
what the lines of its file say and to nothing else (`dials_as_written`).
-/

namespace TcpProxy

open Libevent Runs

/-- What the clients of a board have been led to, those that are gone among them. -/
def Board.Dialed (hosts : Config.Hosts) (B : Board) : Prop :=
  ∀ p, callsOf p B.log = [] ∨ ∃ id host, hosts id = some host ∧
    callsOf p B.log = [Call.idRecv p id, Call.connect p host]

section
variable {hosts : Config.Hosts} {B : Board} {p : ProxyPtr} {s : Session}

theorem hosts_of_route {bs : List UInt8} {id : Int} {host : Config.Host}
    (h : route hosts bs = some (id, host)) : hosts id = some host := by
  unfold route at h
  split at h
  · simp only [Option.ite_none_left_eq_some, Option.some.injEq, Prod.mk.injEq] at h
    obtain ⟨hne, rfl, rfl⟩ := h
    -- an id that the table does not have is looked up as the empty host
    rcases hk : hosts (Word32.word bs 2).toInt with _ | host
    · rw [Config.getHostById, hk] at hne
      exact absurd rfl hne
    · rw [Config.getHostById, hk, Option.getD_some]
  · cases h

theorem Board.dialed_step (sig : Signal) (hL : B.Logged) (h : B.Dialed hosts) :
    (B.step hosts sig).Dialed hosts := by
  intro q
  rcases (step_change hosts B sig).log with hl | ⟨p, s, id, host, d, hs, hg, ha, hl⟩
  · rw [hl]
    exact h q
  · by_cases hq : q = p
    · subst hq
      obtain ⟨-, chunk, -, -, hr⟩ := Signal.admits_iff.1 ha
      -- the client has made no call before
      have hnone : callsOf q B.log = [] := by
        rw [hL.calls q s hs, Session.calls, Session.backend_of_begin hg]
      right
      refine ⟨id, host, hosts_of_route hr, ?_⟩
      rw [hl, callsOf_append, hnone, callsOf_dial, if_pos rfl]
      rfl
    · rw [hl, callsOf_register p id host hq]
      exact h q

theorem reachable_dialed {E : Env} {w : World} (h : Reachable E w) (p : ProxyPtr) :
    callsOf p w.log = [] ∨ ∃ id host, E.config id = some host ∧
      callsOf p w.log = [Call.idRecv p id, Call.connect p host] := by
  obtain ⟨B, hB, -, hD⟩ := reachable_represents (fun B => B.Logged ∧ B.Dialed E.config)
    ⟨Board.logged_init, fun p => .inl rfl⟩
    (fun B sig hI => ⟨Board.logged_step sig hI.1, Board.dialed_step sig hI.1 hI.2⟩) h
  rw [hB.log]
  exact hD p

/-- An entry of an accepted table is on the last line with its id. -/
theorem last_line {unset : Nat → UInt16} {text : List Char} {id : Int} {host : Config.Host}
    (hr : Config.read unset (.ofString text) = some hosts)
    (hl : ∀ line ∈ Config.linesOf text, ¬ Config.SlipsLine line) (hh : hosts id = some host) :
    ∃ pre line post e, Config.linesOf text = pre ++ line :: post ∧ Config.Carries line e ∧
      e.id = id ∧ e.value = host ∧ ∀ l ∈ post, ∀ e', Config.Carries l e' → e'.id ≠ id := by
  have hadm := Config.read_isSome_iff.1 (Option.isSome_iff_exists.2 ⟨hosts, hr⟩)
  obtain ⟨rows, hrows, hlines⟩ := Config.exists_carried fun line hm =>
    (hadm line hm).resolve_right (hl line hm)
  rw [Config.read_carried hrows hlines] at hr
  obtain rfl := Option.some.inj hr
  rw [Config.tableOf_get, Option.map_eq_some_iff] at hh
  obtain ⟨e, he, rfl⟩ := hh
  obtain ⟨pre, post, hes, rfl, hpost⟩ := Config.lastWith_eq_some.1 he
  obtain ⟨rpre, rrest, rfl, -, hrest⟩ := List.map_eq_append_iff.1 hes
  obtain ⟨r, rpost, rfl, rfl, rfl⟩ := List.map_eq_cons_iff.1 hrest
  refine ⟨rpre.map Prod.fst, r.1, rpost.map Prod.fst, r.2, by rw [← hlines]; simp,
    hrows r (by simp), rfl, rfl, ?_⟩
  intro l hm e' he'
  obtain ⟨r', hr', rfl⟩ := List.mem_map.1 hm
  obtain rfl := (hrows r' (by simp [hr'])).unique he'
  exact hpost _ (List.mem_map_of_mem hr')

/-- **No open relay**: in every run of the process, a client makes no call, or it reports one id
and calls `connect` once, with the host and the port that the last line with this id says. A host
that holds a NUL is passed on to libevent up to it. -/
theorem dials_as_written {S : Surroundings} {argv : List Getopt.Arg} {setup : Setup}
    {J : Jsoncpp.Impl} {cmsg : UInt64 → ControlMessage} {ts : List Turn} {s : Process}
    {text : List Char} (hs : Starts S argv setup) (hf : S.file setup.cfg.cfgFile = some text)
    (hl : ∀ line ∈ Config.linesOf text, ¬ Config.SlipsLine line)
    (h : Process.Run ⟨setup.hosts, S.connectRc⟩ J cmsg (.start true) ts s) (p : ProxyPtr) :
    callsOf p s.world.log = [] ∨
      ∃ pre line post e, Config.linesOf text = pre ++ line :: post ∧ Config.Carries line e ∧
        (∀ l ∈ post, ∀ e', Config.Carries l e' → e'.id ≠ e.id) ∧
        callsOf p s.world.log = [Call.idRecv p e.id, Call.connect p e.value] := by
  obtain ⟨os, -, hrun⟩ := (Process.run_follows h).events
  rcases reachable_dialed ⟨_, hrun⟩ p with hc | ⟨id, host, hh, hc⟩
  · exact .inl hc
  · have hread := hs.hosts
    rw [Surroundings.ifstream, hf] at hread
    obtain ⟨pre, line, post, e, hlines, hcar, rfl, rfl, hlast⟩ := last_line hread hl hh
    exact .inr ⟨pre, line, post, e, hlines, hcar, hlast, hc⟩

end

/-- What a process with the table of `e` starts in. -/
def Surroundings.withEntry (e : Config.Entry) : Surroundings where
  base := true
  file _ := some (Config.render [some e])
  unset _ := 0
  bind _ := true
  connectRc _ := 0
  run := true

theorem starts_withEntry (e : Config.Entry) : ∃ setup,
    Starts (.withEntry e) ["testtask".toList] setup ∧ setup.hosts = Config.tableOf [e] := by
  have hread := Config.read_render_eq (fun _ => 0) [some e]
  obtain ⟨address, ha⟩ : ∃ address, AMQP.Address.ofText Config.Settings.new.rmqStr = some address :=
    ⟨_, rfl⟩
  refine ⟨⟨.new, .ERROR, Config.tableOf [e], address⟩, ⟨⟨rfl, ⟨[], .nil, nofun, rfl⟩, ?_⟩, rfl,
    hread, rfl, ha⟩, rfl⟩
  exact Int.le_refl 0

theorem dials_as_written_one :
    let e : Config.Entry :=
      ⟨1, ['h'], 80, by decide, by decide, by decide, List.forall_mem_singleton.2 rfl⟩
    let ts := [.socket (.accept ⟨[], 1⟩), .socket (.read 0 (header 1))]
    ∃ setup s, Starts (.withEntry e) ["testtask".toList] setup ∧
      Process.Run ⟨setup.hosts, fun _ => 0⟩ (readerOf [] .null) (fun _ => ⟨.CLOSE, 0⟩)
        (.start true) ts s ∧
      (callsOf 0 s.world.log = [] ∨
        ∃ pre line post e', Config.linesOf (Config.render [some e]) = pre ++ line :: post ∧
          Config.Carries line e' ∧
          (∀ l ∈ post, ∀ e'', Config.Carries l e'' → e''.id ≠ e'.id) ∧
          callsOf 0 s.world.log = [Call.idRecv 0 e'.id, Call.connect 0 e'.value]) := by
  intro e ts
  obtain ⟨setup, hs, hh⟩ := starts_withEntry e
  obtain ⟨s, h⟩ : ∃ s, Process.Run ⟨setup.hosts, fun _ => 0⟩ (readerOf [] .null)
      (fun _ => ⟨.CLOSE, 0⟩) (.start true) ts s := by
    rw [hh]
    exact ⟨_, rfl⟩
  have hlines : Config.linesOf (Config.render [some e]) = [e.line] := Config.linesOf_render [some e]
  refine ⟨setup, s, hs, h, dials_as_written hs rfl ?_ h 0⟩
  intro line hm
  rw [hlines] at hm
  obtain rfl := List.mem_singleton.1 hm
  exact e.line_carries.not_slips

end TcpProxy
