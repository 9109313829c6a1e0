import TcpProxy.Lib.Runs

/-!
# Infinite runs

`Behaviour step s`: a run of a deterministic transition function from `s` that goes on forever.
Its initial parts are the runs of `Lib/Runs.lean` (`Behaviour.run`), so what holds of all runs holds
in every state of it. What must happen at some time is assumed by `WeakFair` alone: what stays
possible happens. `eventually_caught_up` is the rule for a stream that follows another one.
-/

namespace Runs

variable {σ ε α : Type*} {step : σ → ε → Option σ} {s : σ}

/-- An infinite run from `s`. -/
structure Behaviour (step : σ → ε → Option σ) (s : σ) where
  state : Nat → σ
  event : Nat → ε
  start : state 0 = s
  next : ∀ n, step (state n) (event n) = some (state (n + 1))

namespace Behaviour

variable (b : Behaviour step s)

/-- The first `n` events. -/
def events (n : Nat) : List ε := (List.range n).map b.event

theorem events_succ (n : Nat) : b.events (n + 1) = b.events n ++ [b.event n] := by
  simp [events, List.range_succ]

theorem run (n : Nat) : Run step s (b.events n) (b.state n) := by
  induction n with
  | zero => exact run_nil.2 b.start.symm
  | succ n ih => rw [events_succ]; exact ih.concat (b.next n)

theorem reachable (n : Nat) : Reachable step s (b.state n) := ⟨_, b.run n⟩

/-- A later state is reached from an earlier one. -/
theorem reaches {i j : Nat} (h : i ≤ j) : Reachable step (b.state i) (b.state j) := by
  obtain ⟨d, rfl⟩ := Nat.exists_eq_add_of_le h
  clear h
  induction d with
  | zero => exact .refl _
  | succ d ih => exact ih.next (b.next (i + d))

/-- What every event of an infinite run meets, every event of its initial parts does. -/
theorem everyStep {C : σ → ε → Prop} (hC : ∀ n, C (b.state n) (b.event n)) (n : Nat) :
    EveryStep step s (b.events n) C := by
  induction n with
  | zero => exact everyStep_nil
  | succ n ih => exact b.events_succ n ▸ ih.concat (b.run n) (hC n)

/-- A run that ends in a state that an event leaves as it is goes on forever. -/
def idling {es : List ε} {t : σ} {e : ε} (h : Run step s es t) (he : step t e = some t) :
    Behaviour step s where
  state n := (exec step s (es.take n)).getD t
  event n := es[n]?.getD e
  start := rfl
  next n := by
    by_cases hn : n < es.length
    · obtain ⟨u, v, hu, hv, hv'⟩ := h.step_take hn
      rw [hu, hv, List.getElem?_eq_getElem hn]
      exact hv'
    · rw [List.take_of_length_le (by omega), List.take_of_length_le (by omega), h,
        List.getElem?_eq_none (by omega)]
      exact he

section
variable {es : List ε} {t : σ} {e : ε} (h : Run step s es t) (he : step t e = some t) {n : Nat}

theorem idling_state (hn : es.length ≤ n) : (idling h he).state n = t := by
  have ht : exec step s es = some t := h
  simp only [idling, List.take_of_length_le hn, ht, Option.getD_some]

theorem idling_event (hn : es.length ≤ n) : (idling h he).event n = e := by
  simp only [idling, List.getElem?_eq_none hn, Option.getD_none]

/-- What holds at every event of the run, and of the idling, holds forever. -/
theorem idling_every {C : σ → ε → Prop} (hC : EveryStep step s es C) (hi : C t e) (n : Nat) :
    C ((idling h he).state n) ((idling h he).event n) := by
  by_cases hn : n < es.length
  · obtain ⟨u, v, hu, -, -⟩ := h.step_take hn
    have hstate : (idling h he).state n = u := by
      show (exec step s (es.take n)).getD t = u
      rw [hu, Option.getD_some]
    have hevent : (idling h he).event n = es[n] := by
      show es[n]?.getD e = es[n]
      rw [List.getElem?_eq_getElem hn, Option.getD_some]
    rw [hstate, hevent]
    exact hC (es.take n) es[n] (es.drop (n + 1)) u (by simp) hu
  · rw [idling_state h he (by omega), idling_event h he (by omega)]
    exact hi

end

end Behaviour

/-! ## What must happen -/

/-- Weak fairness: what stays possible happens. -/
def WeakFair (enabled occurs : Nat → Prop) : Prop :=
  ∀ i, (∀ j, i ≤ j → enabled j) → ∃ j, i ≤ j ∧ occurs j

/-- **A stream that follows another one** and goes on as long as it is behind catches up with
everything that the other one has brought. -/
theorem eventually_caught_up (all sent : Nat → List α) {m : Nat}
    (hall : ∀ i j, m ≤ i → i ≤ j → all i <+: all j)
    (hsent : ∀ i j, m ≤ i → i ≤ j → sent i <+: sent j)
    (hle : ∀ i, m ≤ i → sent i <+: all i)
    (fair : WeakFair (fun i => m ≤ i ∧ sent i ≠ all i) fun i => sent i ≠ sent (i + 1))
    {i : Nat} (hi : m ≤ i) : ∃ j, i ≤ j ∧ all i <+: sent j := by
  have hlong : ∀ k, k ≤ (all i).length → ∃ j, i ≤ j ∧ k ≤ (sent j).length := by
    intro k
    induction k with
    | zero => exact fun _ => ⟨i, Nat.le_refl i, Nat.zero_le _⟩
    | succ k ih =>
      intro hk
      obtain ⟨j, hij, hj⟩ := ih (by omega)
      by_contra hc
      have hshort : ∀ l, i ≤ l → (sent l).length ≤ k := fun l hl => by
        by_contra hs
        exact hc ⟨l, hl, by omega⟩
      -- so from `j` on it neither grows nor has caught up
      have hstuck : ∀ l, j ≤ l → sent l = sent j := fun l hl =>
        ((hsent j l (by omega) hl).eq_of_length_le
          (Nat.le_trans (hshort l (by omega)) hj)).symm
      have hbehind : ∀ l, j ≤ l → m ≤ l ∧ sent l ≠ all l := fun l hl => by
        refine ⟨by omega, fun he => ?_⟩
        have hlen := (hall i l hi (by omega)).length_le
        have := hshort l (by omega)
        rw [he] at this
        omega
      obtain ⟨l, hl, hmoves⟩ := fair j hbehind
      exact hmoves ((hstuck l hl).trans (hstuck (l + 1) (by omega)).symm)
  obtain ⟨j, hij, hj⟩ := hlong _ (Nat.le_refl _)
  exact ⟨j, hij, List.prefix_of_prefix_length_le (hall i j hi hij) (hle j (by omega)) hj⟩

end Runs
