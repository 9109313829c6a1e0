import Mathlib.Tactic.Common
import Mathlib.Data.List.Induction

/-!
# Runs of a deterministic transition function

`step : σ → ε → Option σ` is one event of a machine, `none` where the machine does not offer it.
`Run step s es t`: the events `es` lead from `s` to `t`. Invariants are proved with
`Run.invariant` (of the states), `Run.history` (of the states and the events so far) and
`EveryState.iff` (a property that holds along a run exactly if every event meets a condition) and
`Run.until` (one that holds until an event does not).
Events that commute and are idempotent lead to a state that depends on their set alone
(`foldl_eq_of_mem_iff`).
-/

namespace Runs

variable {σ ε : Type*} {step : σ → ε → Option σ}

/-- The state after the events `es`, `none` from the first one that is not offered. -/
def exec (step : σ → ε → Option σ) : σ → List ε → Option σ
  | s, [] => some s
  | s, e :: es => (step s e).bind fun t => exec step t es

/-- The events `es` lead from `s` to `t`. -/
def Run (step : σ → ε → Option σ) (s : σ) (es : List ε) (t : σ) : Prop := exec step s es = some t

/-- Some run leads from `s` to `t`. -/
def Reachable (step : σ → ε → Option σ) (s t : σ) : Prop := ∃ es, Run step s es t

theorem run_nil {s t : σ} : Run step s [] t ↔ s = t := by simp [Run, exec]

theorem run_cons {s t : σ} {e : ε} {es : List ε} :
    Run step s (e :: es) t ↔ ∃ u, step s e = some u ∧ Run step u es t := by
  simp [Run, exec, Option.bind_eq_some_iff]

theorem run_append {s t : σ} {es fs : List ε} :
    Run step s (es ++ fs) t ↔ ∃ u, Run step s es u ∧ Run step u fs t := by
  induction es generalizing s with
  | nil => simp [run_nil]
  | cons e es ih =>
    simp only [List.cons_append, run_cons, ih]
    constructor
    · rintro ⟨u, hu, v, hv, ht⟩
      exact ⟨v, ⟨u, hu, hv⟩, ht⟩
    · rintro ⟨v, ⟨u, hu, hv⟩, ht⟩
      exact ⟨u, hu, v, hv, ht⟩

theorem run_single {s t : σ} {e : ε} : Run step s [e] t ↔ step s e = some t := by
  simp [run_cons, run_nil]

theorem run_concat {s t : σ} {es : List ε} {e : ε} :
    Run step s (es ++ [e]) t ↔ ∃ u, Run step s es u ∧ step u e = some t := by
  simp [run_append, run_single]

theorem Run.det {s t u : σ} {es : List ε} (ht : Run step s es t) (hu : Run step s es u) : t = u :=
  Option.some.inj (ht.symm.trans hu)

theorem Run.concat {s t u : σ} {es : List ε} {e : ε} (h : Run step s es t)
    (he : step t e = some u) : Run step s (es ++ [e]) u := run_concat.2 ⟨t, h, he⟩

theorem Reachable.refl (s : σ) : Reachable step s s := ⟨[], rfl⟩

theorem Reachable.next {s t u : σ} {e : ε} (h : Reachable step s t) (he : step t e = some u) :
    Reachable step s u := by
  obtain ⟨es, h⟩ := h
  exact ⟨es ++ [e], h.concat he⟩

/-- Every event of a run is taken in the state that the events before it lead to. -/
theorem Run.step_at {s t u : σ} {pre post : List ε} {e : ε} (h : Run step s (pre ++ e :: post) t)
    (hu : Run step s pre u) : ∃ v, step u e = some v := by
  obtain ⟨u', hu', hpost⟩ := run_append.1 h
  obtain rfl := hu.det hu'
  obtain ⟨v, hv, -⟩ := run_cons.1 hpost
  exact ⟨v, hv⟩

theorem Run.step_take {s t : σ} {es : List ε} {n : Nat} (h : Run step s es t)
    (hn : n < es.length) :
    ∃ u v, Run step s (es.take n) u ∧ Run step s (es.take (n + 1)) v ∧ step u es[n] = some v := by
  have hsplit : es = es.take n ++ es[n] :: es.drop (n + 1) := by simp
  rw [hsplit] at h
  obtain ⟨u, hu, hrest⟩ := run_append.1 h
  obtain ⟨v, hv, -⟩ := run_cons.1 hrest
  exact ⟨u, v, hu, List.take_succ_eq_append_getElem hn ▸ hu.concat hv, hv⟩

/-! ## Invariants -/

/-- **The history rule**: a property of the events so far and the state they lead to that holds
at the start and is kept by every step holds of every run. -/
theorem Run.history {P : List ε → σ → Prop} {s : σ} (h0 : P [] s)
    (hs : ∀ es t e u, Run step s es t → P es t → step t e = some u → P (es ++ [e]) u) :
    ∀ {es : List ε} {t : σ}, Run step s es t → P es t := by
  intro es
  induction es using List.reverseRecOn with
  | nil => intro t h; rw [run_nil] at h; subst h; exact h0
  | append_singleton es e ih =>
    intro t h
    obtain ⟨u, hu, he⟩ := run_concat.1 h
    exact hs es u e t hu (ih hu) he

/-- **The invariant rule**. -/
theorem Run.invariant {P : σ → Prop} {s : σ} (h0 : P s)
    (hs : ∀ t e u, Reachable step s t → P t → step t e = some u → P u) {es : List ε} {t : σ}
    (h : Run step s es t) : P t :=
  Run.history (P := fun _ t => P t) h0 (fun es t e u hr hp he => hs t e u ⟨es, hr⟩ hp he) h

theorem Reachable.invariant {P : σ → Prop} {s t : σ} (h0 : P s)
    (hs : ∀ t e u, Reachable step s t → P t → step t e = some u → P u)
    (h : Reachable step s t) : P t := by
  obtain ⟨es, h⟩ := h
  exact Run.invariant h0 hs h

/-! ## Along a run -/

/-- `P` holds in every state that a prefix of the events `es` leads to. -/
def EveryState (step : σ → ε → Option σ) (s : σ) (es : List ε) (P : σ → Prop) : Prop :=
  ∀ pre post u, es = pre ++ post → Run step s pre u → P u

/-- Every event of `es` meets `C` in the state it is taken in. -/
def EveryStep (step : σ → ε → Option σ) (s : σ) (es : List ε) (C : σ → ε → Prop) : Prop :=
  ∀ pre e post u, es = pre ++ e :: post → Run step s pre u → C u e

theorem everyStep_nil {s : σ} {C : σ → ε → Prop} : EveryStep step s [] C := by
  intro pre e post u he
  simp at he

theorem everyStep_cons {s : σ} {e : ε} {es : List ε} {C : σ → ε → Prop} :
    EveryStep step s (e :: es) C ↔ C s e ∧ ∀ t, step s e = some t → EveryStep step t es C := by
  constructor
  · intro h
    refine ⟨h [] e es s rfl rfl, fun t ht pre f post u he hr => ?_⟩
    exact h (e :: pre) f post u (by simp [he]) (run_cons.2 ⟨t, ht, hr⟩)
  · rintro ⟨hC, h⟩ (_ | ⟨f, pre⟩) g post u he hr
    · obtain ⟨rfl, rfl⟩ := List.cons.inj he
      rw [run_nil] at hr
      exact hr ▸ hC
    · obtain ⟨rfl, rfl⟩ := List.cons.inj he
      obtain ⟨t, ht, hr⟩ := run_cons.1 hr
      exact h t ht pre g post u rfl hr

/-- A condition that can be decided at each event can be decided along a run. -/
instance EveryStep.decide {C : σ → ε → Prop} [∀ s e, Decidable (C s e)] :
    ∀ (es : List ε) (s : σ), Decidable (EveryStep step s es C)
  | [], _ => .isTrue everyStep_nil
  | e :: es, s =>
    have : ∀ t, Decidable (EveryStep step t es C) := EveryStep.decide es
    decidable_of_iff (C s e ∧ ∀ t ∈ step s e, EveryStep step t es C) everyStep_cons.symm

theorem EveryStep.of_append {s : σ} {es fs : List ε} {C : σ → ε → Prop}
    (h : EveryStep step s (es ++ fs) C) : EveryStep step s es C := by
  intro pre e post u he hr
  exact h pre e (post ++ fs) u (by simp [he]) hr

theorem EveryStep.concat {s t : σ} {es : List ε} {e : ε} {C : σ → ε → Prop}
    (h : EveryStep step s es C) (hr : Run step s es t) (he : C t e) :
    EveryStep step s (es ++ [e]) C := by
  intro pre f post u hsplit hu
  rcases List.eq_nil_or_concat post with rfl | ⟨post, g, rfl⟩
  · obtain ⟨rfl, hf⟩ := List.append_inj' hsplit rfl
    obtain rfl := List.singleton_inj.1 hf
    exact hr.det hu ▸ he
  · have hsplit : es ++ [e] = (pre ++ f :: post) ++ [g] := by rw [hsplit]; simp
    obtain ⟨rfl, -⟩ := List.append_inj' hsplit rfl
    exact h pre f post u rfl hu

/-- The invariant rule for the runs whose every event meets `C`. -/
theorem EveryStep.invariant {P : σ → Prop} {C : σ → ε → Prop} {s : σ} (h0 : P s)
    (hs : ∀ t e u, Reachable step s t → P t → C t e → step t e = some u → P u) {es : List ε} {t : σ}
    (hC : EveryStep step s es C) (h : Run step s es t) : P t :=
  Run.history (P := fun es t => EveryStep step s es C → P t) (fun _ => h0)
    (fun es t e u hr hp he hC =>
      hs t e u ⟨es, hr⟩ (hp hC.of_append) (hC es e [] t rfl hr) he) h hC

/-- **The exact condition**: where a step keeps `P` exactly if its event meets `C`, `P` holds
along a run exactly if every event of the run meets `C`. -/
theorem EveryState.iff {P : σ → Prop} {C : σ → ε → Prop} {s t : σ} {es : List ε} (h0 : P s)
    (hs : ∀ t e u, Reachable step s t → P t → step t e = some u → (P u ↔ C t e))
    (h : Run step s es t) : EveryState step s es P ↔ EveryStep step s es C := by
  constructor
  · intro hP pre e post u he hr
    subst he
    obtain ⟨v, hv⟩ := h.step_at hr
    have hu : P u := hP pre (e :: post) u rfl hr
    exact (hs u e v ⟨pre, hr⟩ hu hv).1 (hP (pre ++ [e]) post v (by simp) (hr.concat hv))
  · intro hC pre post u he hr
    subst he
    exact EveryStep.invariant h0 (fun t e v ht hp hc hv => (hs t e v ht hp hv).2 hc)
      hC.of_append hr

/-- **The rule of waiting**: `P` holds along a run as long as every event meets `C`, and `Q` does
from the first event on that does not. -/
theorem Run.until {P Q : List ε → σ → Prop} {C : σ → ε → Prop} {s : σ} (h0 : P [] s)
    (hstay : ∀ es t e u, P es t → C t e → step t e = some u → P (es ++ [e]) u)
    (hleave : ∀ es t e u, P es t → ¬ C t e → step t e = some u → Q (es ++ [e]) u)
    (hkeep : ∀ es t e u, Q es t → step t e = some u → Q (es ++ [e]) u) {es : List ε} {t : σ}
    (h : Run step s es t) :
    (EveryStep step s es C → P es t) ∧ (¬ EveryStep step s es C → Q es t) := by
  refine Run.history (P := fun es t => (EveryStep step s es C → P es t) ∧
    (¬ EveryStep step s es C → Q es t)) ?_ (fun es t e u hr hp he => ?_) h
  · exact ⟨fun _ => h0, fun hC => absurd everyStep_nil hC⟩
  · by_cases hC : EveryStep step s es C
    · refine ⟨fun hC' => hstay es t e u (hp.1 hC) (hC' es e [] t rfl hr) he, fun hC' => ?_⟩
      exact hleave es t e u (hp.1 hC) (fun hc => hC' (hC.concat hr hc)) he
    · exact ⟨fun hC' => absurd hC'.of_append hC, fun _ => hkeep es t e u (hp.2 hC) he⟩

/-! ## Events whose order does not matter -/

section
variable {f : σ → ε → σ} (comm : ∀ s a b, f (f s a) b = f (f s b) a)
  (idem : ∀ s a, f (f s a) a = f s a)
include comm idem

/-- An event that comes again is absorbed. -/
theorem foldl_absorb {a : ε} : ∀ {l : List ε}, a ∈ l → ∀ s, l.foldl f (f s a) = l.foldl f s
  | b :: l, h, s => by
    rw [List.foldl_cons, List.foldl_cons]
    rcases List.mem_cons.1 h with rfl | h
    · rw [idem]
    · rw [comm, foldl_absorb h]

theorem foldl_absorb_all {l l' : List ε} (h : ∀ a ∈ l', a ∈ l) (s : σ) :
    (l' ++ l).foldl f s = l.foldl f s := by
  induction l' generalizing s with
  | nil => rfl
  | cons a l' ih =>
    have hl' : ∀ b ∈ l', b ∈ l := fun b hb => h b (List.mem_cons_of_mem a hb)
    rw [List.cons_append, List.foldl_cons, ih hl', foldl_absorb comm idem (h a List.mem_cons_self)]

/-- **Events that commute and are idempotent**: only which ones are taken matters, not in which
order nor how often. -/
theorem foldl_eq_of_mem_iff {l l' : List ε} (h : ∀ a, a ∈ l ↔ a ∈ l') (s : σ) :
    l.foldl f s = l'.foldl f s :=
  calc l.foldl f s
      = (l' ++ l).foldl f s := (foldl_absorb_all comm idem (fun a => (h a).2) s).symm
    _ = (l ++ l').foldl f s := List.perm_append_comm.foldl_eq' (fun a _ b _ s => comm s a b) s
    _ = l'.foldl f s := foldl_absorb_all comm idem (fun a => (h a).1) s

end

end Runs
