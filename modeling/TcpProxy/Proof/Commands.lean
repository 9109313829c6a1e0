import TcpProxy.Proof.Refine
import TcpProxy.Spec.Commands

/-!
# Control messages that are repeated or reordered

A board determines the state that represents it, up to the order in which its clients are kept
(`Represents.unique`), and a control message keeps that order. So what a sequence of messages leads
to depends only on which commands it has, not on their order nor on how often each comes
(`messages_insensitive`).
-/

namespace TcpProxy

open Libevent Runs

section
variable {E : Env} {w w' : World} {B : Board}

/-- A part of a list without repetitions is what it has of the list, in the list's order. -/
theorem sublist_eq_filter {l l₁ : List ProxyPtr} (hn : l.Nodup) (h : l₁.Sublist l) :
    l₁ = l.filter (· ∈ l₁) := by
  induction h with
  | slnil => rfl
  | @cons l₁ l a h ih =>
    obtain ⟨ha, hn⟩ := List.nodup_cons.1 hn
    rw [List.filter_cons_of_neg (by simpa using fun hm => ha (h.subset hm))]
    exact ih hn
  | @cons_cons l₁ l a h ih =>
    obtain ⟨ha, hn⟩ := List.nodup_cons.1 hn
    rw [List.filter_cons_of_pos (by simp)]
    refine congrArg (a :: ·) ((ih hn).trans (List.filter_congr fun b hb => ?_))
    have hne : b ≠ a := fun e => ha (e ▸ hb)
    simp [hne]

theorem Shows.bevs_le {b : BevPtr} {X : Bufferevent Ctx} (h : Shows w B) (h' : Shows w' B)
    (hX : w.bevs.get b = some X) : w'.bevs.get b = some X := by
  obtain ⟨p, s, hs, ⟨rfl, rfl⟩ | ⟨hb, rfl⟩⟩ := h.socket hX
  · exact h'.client p s hs
  · exact h'.backend p s b hs hb

/-- **A board determines the state** but for the order of the clients. -/
theorem Represents.unique (h : Represents w B) (h' : Represents w' B)
    (hp : w.cm.processors = w'.cm.processors) : w = w' := by
  have hbevs : w.bevs = w'.bevs := by
    refine Heap.ext (h.nextBev.trans h'.nextBev.symm) (funext fun b => ?_)
    exact Option.ext fun X => ⟨h.toShows.bevs_le h'.toShows, h'.toShows.bevs_le h.toShows⟩
  have hproxies : w.proxies = w'.proxies := by
    refine Heap.ext (h.nextProxy.trans h'.nextProxy.symm) (funext fun p => ?_)
    rw [h.proxies, h'.proxies]
  have hmutex := h.mutex.trans h'.mutex.symm
  have hrunning := h.running.trans h'.running.symm
  have hindex := h.index.trans h'.index.symm
  have hlock := h.lock.trans h'.lock.symm
  have hlog := h.log.trans h'.log.symm
  rcases w with ⟨_, _, ⟨_, _, _⟩, ⟨_, _⟩, _⟩
  rcases w' with ⟨_, _, ⟨_, _, _⟩, ⟨_, _⟩, _⟩
  simp only at hbevs hproxies hp hmutex hrunning hindex hlock hlog
  rw [hbevs, hproxies, hp, hmutex, hrunning, hindex, hlock, hlog]

theorem step_message (msg : ControlMessage) :
    B.step E.config (label E w (.control msg)) = msg.command.elim B B.obey := by
  rcases msg with ⟨_ | _ | _, id⟩ <;> rfl

theorem run_messages (msgs : List ControlMessage) : ∀ {w : World} {B : Board}, Represents w B →
    ∃ w', Run E w (msgs.map .control) w' ∧
      Represents w' ((msgs.filterMap ControlMessage.command).foldl Board.obey B) ∧
      w'.cm.processors.Sublist w.cm.processors := by
  induction msgs with
  | nil => exact fun h => ⟨_, rfl, h, List.Sublist.refl _⟩
  | cons msg msgs ih =>
    intro w B h
    obtain ⟨u, hok, hu, hsub⟩ := control_refines (E := E) h msg
    rw [step_message] at hu
    obtain ⟨w', hrun, hw', hsub'⟩ := ih hu
    refine ⟨w', run_cons.2 ⟨u, next_eq.2 ⟨rfl, hok⟩, hrun⟩, ?_, hsub'.trans hsub⟩
    rw [List.filterMap_cons]
    cases hc : msg.command <;> simpa [hc] using hw'

/-- **Messages with the same commands lead to the same state**, in whatever order and however often
each comes. -/
theorem messages_insensitive (msgs msgs' : List ControlMessage) (h : Reachable E w)
    (hc : ∀ c, (∃ m ∈ msgs, m.command = some c) ↔ ∃ m ∈ msgs', m.command = some c) :
    ∃ w', Run E w (msgs.map .control) w' ∧ Run E w (msgs'.map .control) w' := by
  obtain ⟨B, hB⟩ := reachable_board h
  obtain ⟨u, hu, hBu, hsub⟩ := run_messages (E := E) msgs hB
  obtain ⟨u', hu', hBu', hsub'⟩ := run_messages (E := E) msgs' hB
  have hcs : ∀ c, c ∈ msgs.filterMap ControlMessage.command ↔
      c ∈ msgs'.filterMap ControlMessage.command := fun c => by
    simpa only [List.mem_filterMap] using hc c
  rw [B.obey_eq_of_mem_iff hcs] at hBu
  -- the same clients are left, and in the order they had
  have hp : u.cm.processors = u'.cm.processors := by
    rw [sublist_eq_filter hB.nodup hsub, sublist_eq_filter hB.nodup hsub']
    simp only [hBu.processors, hBu'.processors]
  obtain rfl := hBu.unique hBu' hp
  exact ⟨u, hu, hu'⟩

end

theorem messages_insensitive_two : ∃ w w',
    Run (.single 1 (['h'], 80)) .init [.accept ⟨[], 1⟩, .accept ⟨[], 2⟩, .read 0 (header 1),
      .read 1 (header 1)] w ∧
    Run (.single 1 (['h'], 80)) w [.control ⟨.CLOSE, 1⟩, .control ⟨.CLOSE_ALL, -1⟩] w' ∧
    Run (.single 1 (['h'], 80)) w [.control ⟨.CLOSE_ALL, -1⟩, .control ⟨.CLOSE, 1⟩,
      .control ⟨.CLOSE_ALL, -2⟩] w' := by
  have hrun : Run (.single 1 (['h'], 80)) .init [.accept ⟨[], 1⟩, .accept ⟨[], 2⟩,
    .read 0 (header 1), .read 1 (header 1)] _ := rfl
  obtain ⟨w', h, h'⟩ := messages_insensitive [⟨.CLOSE, 1⟩, ⟨.CLOSE_ALL, -1⟩]
    [⟨.CLOSE_ALL, -1⟩, ⟨.CLOSE, 1⟩, ⟨.CLOSE_ALL, -2⟩] ⟨_, hrun⟩ (fun c => by
      simp [ControlMessage.command, or_comm, or_left_comm])
  exact ⟨_, w', hrun, h, h'⟩

end TcpProxy
