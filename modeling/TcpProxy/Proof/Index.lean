import Mathlib.Data.List.Perm.Subperm
import TcpProxy.Proof.Events
import TcpProxy.Proof.Tables
import TcpProxy.Spec.Log

/-!
# The id index of the program

`ProxyManager::dropConnection` erases every entry of the id of the client that leaves, not only that
client's, and no entry at all if the id is negative. The two theorems say exactly when that does
harm along a run: closing by id stays complete if and only if nobody leaves whose id another
connected client has (`close_complete_iff`), and the index stays free of stale entries if and only
if nobody leaves whose id is negative (`index_clean_iff`).
-/

namespace TcpProxy

open Libevent Runs

/-- The proxy `p` has reported the id `k` through `onIdRecv`. -/
def Reported (w : World) (p : ProxyPtr) (k : Int) : Prop := Call.idRecv p k ∈ w.log

/-- The client `p`, whose id is `k`, ends its connection by itself, or loses it because the backend
closes or `connect` returns false. -/
def LeavesWith (E : Env) (w : World) (p : ProxyPtr) (k : Int) (e : Event) : Prop :=
  (ClientCloses w p e ∨ BackendCloses w p e) ∧ p ∈ w.cm.processors ∧ Reported w p k ∨
    Undialed E w p k e

/-- A message that closes an id, if it came next, would leave no client connected that has
reported the id. -/
def ClosesById (E : Env) (w : World) : Prop :=
  ∀ k, 0 ≤ k → ∀ w', next E w (.control ⟨.CLOSE, k⟩) = some w' →
    ∀ p ∈ w'.cm.processors, ¬ Reported w' p k

/-- The client that leaves at the event, if its id is not negative, is the only one with its id. -/
def LeavesAlone (E : Env) (w : World) (e : Event) : Prop :=
  ∀ p k, 0 ≤ k → LeavesWith E w p k e → ∀ q ∈ w.cm.processors, q ≠ p → ¬ Reported w q k

/-- Every entry of the index is of a connected client filed under its id, no client has two, and
so there are no more entries than clients. -/
structure IndexOk (w : World) : Prop where
  entry : ∀ e ∈ w.pm.idToConn, e.2 ∈ w.cm.processors ∧
    ∃ px, w.proxies.get e.2 = some px ∧ px.id = e.1
  nodup : (w.pm.idToConn.map (·.2)).Nodup
  bound : w.pm.idToConn.length ≤ w.cm.processors.length

section
variable {E : Env} {w w' : World} {B : Board} {p : ProxyPtr} {s : Session} {e : Event} {k : Int}

/-! ## On the board -/

/-- What the board has on file of its clients. -/
structure OnFile (B : Board) : Prop where
  filed : B.Filed
  logged : B.Logged

theorem OnFile.step (hB : OnFile B) (hosts : Config.Hosts) (sig : Signal) :
    OnFile (B.step hosts sig) :=
  ⟨Board.filed_step sig hB.filed, Board.logged_step sig hB.logged⟩

theorem reachable_onFile (h : Reachable E w) : ∃ B, Represents w B ∧ OnFile B :=
  reachable_represents OnFile ⟨Board.filed_init, Board.logged_init⟩
    (fun _ sig hB => hB.step _ sig) h

theorem reported_iff (h : Represents w B) (hB : OnFile B) (hs : B.sessions.get p = some s) :
    Reported w p k ↔ s.peer.isSome ∧ s.id = k := by
  rw [Reported, h.log]
  exact hB.logged.reported hs k

theorem leavesWith_iff (h : Represents w B) (hB : OnFile B) :
    LeavesWith E w p k e ↔ Board.Leaves E.config B (label E w e) p k := by
  constructor
  · rintro (⟨hc, hp, hr⟩ | ⟨⟨host, hc⟩, hrc⟩)
    · obtain ⟨s, hs⟩ := h.session_of_mem hp
      obtain ⟨hpeer, hid⟩ := (reported_iff h hB hs).1 hr
      exact .inl ⟨s, hs, hpeer, hid, (ends_iff h hs).2 (or_assoc.1 (.inl hc))⟩
    · obtain ⟨s, hs⟩ := h.session_of_completes hc
      exact .inr ⟨s, host, hs, (admits_iff h hs).2 ⟨hc, (decide_eq_false hrc).symm⟩⟩
  · rintro (⟨s, hs, hpeer, hid, he⟩ | ⟨s, host, hs, ha⟩)
    · have hr := (reported_iff h hB hs).2 ⟨hpeer, hid⟩
      rcases (ends_iff h hs).1 he with hc | hc | hc
      · exact .inl ⟨.inl hc, h.mem_processors hs, hr⟩
      · exact .inl ⟨.inr hc, h.mem_processors hs, hr⟩
      · rw [Session.peer_of_begin ((completes_iff h hs).1 hc).1] at hpeer
        cases hpeer
    · obtain ⟨hc, hrc⟩ := (admits_iff h hs).1 ha
      exact .inr ⟨⟨host, hc⟩, of_decide_eq_false hrc.symm⟩

theorem closesById_iff (h : Represents w B) (hB : OnFile B) : ClosesById E w ↔ B.Complete := by
  constructor
  · intro hc p s hs hp h0
    by_contra hn
    obtain ⟨w', hok, hw'⟩ := handle_refines (E := E) (e := .control ⟨.CLOSE, s.id⟩) h rfl
    have hs' : (B.close s.id).sessions.get p = some s := (Board.close_other hn).trans hs
    refine hc s.id h0 w' (next_eq.2 ⟨rfl, hok⟩) p (hw'.mem_processors hs') ?_
    rw [Reported, hw'.log]
    exact (hB.logged.reported hs _).2 ⟨hp, rfl⟩
  · intro hc k hk w' hn p hp hr
    have hw' := next_refines h hn
    obtain ⟨s, hs⟩ := hw'.session_of_mem hp
    change (B.close k).sessions.get p = some s at hs
    rw [Board.close_get] at hs
    split at hs
    · cases hs
    · rename_i hv
      rw [Reported, hw'.log] at hr
      obtain ⟨hpeer, rfl⟩ := (hB.logged.reported hs k).1 hr
      exact hv (hc p s hs hpeer hk)

theorem leavesAlone_iff (h : Represents w B) (hB : OnFile B) :
    LeavesAlone E w e ↔ ∀ p k, 0 ≤ k → Board.Leaves E.config B (label E w e) p k →
      ∀ q s, q ≠ p → B.sessions.get q = some s → s.peer.isSome → s.id ≠ k := by
  refine forall₃_congr fun p k _ => imp_congr (leavesWith_iff h hB) (forall_congr' fun q => ?_)
  constructor
  · rintro hq s hne hs hp rfl
    exact hq (h.mem_processors hs) hne ((reported_iff h hB hs).2 ⟨hp, rfl⟩)
  · intro hq hmem hne hr
    obtain ⟨s, hs⟩ := h.session_of_mem hmem
    obtain ⟨hp, hid⟩ := (reported_iff h hB hs).1 hr
    exact hq s hne hs hp hid

theorem indexOk_iff (h : Represents w B) (hB : OnFile B) : IndexOk w ↔ B.Clean := by
  constructor
  · intro hok e he
    exact (h.processors e.2).1 (hok.entry e (h.index ▸ he)).1
  · intro hc
    have hlive : ∀ e ∈ w.pm.idToConn, e.2 ∈ w.cm.processors := fun e he =>
      (h.processors e.2).2 (hc e (h.index ▸ he))
    have hnodup : (w.pm.idToConn.map (·.2)).Nodup := by
      rw [h.index]
      exact hB.filed.nodup
    refine ⟨fun e he => ⟨hlive e he, ?_⟩, hnodup, ?_⟩
    · rw [h.index] at he
      obtain ⟨s, hs⟩ := Option.isSome_iff_exists.1 (hc e he)
      exact ⟨_, h.object hs, (hB.filed.entry e he s hs).2⟩
    · have hsub : w.pm.idToConn.map (·.2) ⊆ w.cm.processors := fun p hp => by
        obtain ⟨e, he, rfl⟩ := List.mem_map.1 hp
        exact hlive e he
      simpa using (List.subperm_of_subset hnodup hsub).length_le

/-! ## Closing by id -/

/-- **Closing by id is complete exactly as long as nobody leaves whose id another connected client
has.** -/
theorem close_complete_iff {es : List Event} (h : Run E .init es w) :
    EveryState (next E) .init es (ClosesById E) ↔ EveryStep (next E) .init es (LeavesAlone E) := by
  refine EveryState.iff ?_ (fun u e v hu hP hn => ?_) h
  · exact (closesById_iff represents_init ⟨Board.filed_init, Board.logged_init⟩).2 nofun
  · obtain ⟨B, hB, hF⟩ := reachable_onFile hu
    rw [closesById_iff hB hF] at hP
    rw [closesById_iff (next_refines hB hn) (hF.step _ _), leavesAlone_iff hB hF]
    exact Board.complete_step_iff hF.filed hP

theorem close_complete_iff_two : ∃ w w',
    let E := Env.single 1 (['h'], 80)
    let es := [.accept ⟨[], 1⟩, .accept ⟨[], 2⟩, .read 0 (header 1), .read 1 (header 1)]
    Run E .init es w ∧ w.pm.idToConn = [(1, 0), (1, 1)] ∧
    Run E .init (es ++ [.control ⟨.CLOSE, 1⟩]) w' ∧ w'.cm.processors = [] ∧
    (EveryState (next E) .init (es ++ [.control ⟨.CLOSE, 1⟩]) (ClosesById E) ↔
      EveryStep (next E) .init (es ++ [.control ⟨.CLOSE, 1⟩]) (LeavesAlone E)) :=
  ⟨_, _, rfl, rfl, rfl, rfl, close_complete_iff (show Run (.single 1 (['h'], 80)) .init
    ([.accept ⟨[], 1⟩, .accept ⟨[], 2⟩, .read 0 (header 1), .read 1 (header 1)] ++
      [.control ⟨.CLOSE, 1⟩]) _ from rfl)⟩

/-- Of two clients with the id 1 the first disconnects: closing the id 1 then misses the second. -/
theorem close_incomplete : ∃ w w',
    Run (.single 1 (['h'], 80)) .init [.accept ⟨[], 1⟩, .accept ⟨[], 2⟩, .read 0 (header 1),
      .read 1 (header 1), .event 0 BEV_EVENT_EOF] w ∧
    next (.single 1 (['h'], 80)) w (.control ⟨.CLOSE, 1⟩) = some w' ∧
    1 ∈ w'.cm.processors ∧ Reported w' 1 1 ∧ ¬ ClosesById (.single 1 (['h'], 80)) w := by
  refine ⟨_, _, rfl, rfl, by decide, ?_, fun h => h 1 (by decide) _ rfl 1 (by decide) ?_⟩
  all_goals
    unfold Reported
    decide

/-! ## Stale entries -/

/-- **The index is clean exactly as long as nobody leaves whose id is negative.** -/
theorem index_clean_iff {es : List Event} (h : Run E .init es w) :
    EveryState (next E) .init es IndexOk ↔
      EveryStep (next E) .init es fun u e => ∀ p k, LeavesWith E u p k e → 0 ≤ k := by
  refine EveryState.iff ?_ (fun u e v hu hP hn => ?_) h
  · exact (indexOk_iff represents_init ⟨Board.filed_init, Board.logged_init⟩).2 nofun
  · obtain ⟨B, hB, hF⟩ := reachable_onFile hu
    rw [indexOk_iff hB hF] at hP
    rw [indexOk_iff (next_refines hB hn) (hF.step _ _), Board.clean_step_iff hF.filed hP]
    exact forall₂_congr fun p k => imp_congr_left (leavesWith_iff hB hF).symm

theorem index_clean_iff_one :
    let es := [.accept ⟨[], 1⟩, .read 0 (header 1), .event 0 BEV_EVENT_EOF]
    EveryState (next (.single 1 (['h'], 80))) .init es IndexOk ↔
      EveryStep (next (.single 1 (['h'], 80))) .init es fun u e =>
        ∀ p k, LeavesWith (.single 1 (['h'], 80)) u p k e → 0 ≤ k :=
  index_clean_iff (show Run (.single 1 (['h'], 80)) .init
    [.accept ⟨[], 1⟩, .read 0 (header 1), .event 0 BEV_EVENT_EOF] _ from rfl)

/-- A table with a negative id is accepted; a client with that id leaves its entry behind. -/
theorem index_not_clean :
    Config.read (fun _ => 0) (.ofString ['-', '5', ' ', 'h', ' ', '8', '0']) =
        some (Env.single (-5) (['h'], 80)).config ∧
      ∃ w, Run (.single (-5) (['h'], 80)) .init
          [.accept ⟨[], 1⟩, .read 0 (header (-5)), .event 0 BEV_EVENT_EOF] w ∧
        w.pm.idToConn = [(-5, 0)] ∧ w.cm.processors = [] ∧ ¬ IndexOk w := by
  refine ⟨?_, _, rfl, by decide, by decide, fun h => ?_⟩
  · rw [Config.read_ofLine (by decide) (by decide), Env.single_config]
    rfl
  · exact absurd (h.entry (-5, 0) (by decide)).1 (by decide)

end

end TcpProxy
