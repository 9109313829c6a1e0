import TcpProxy.Spec.Change

/-!
# The index of a board

`Board.Filed`: a connected client that has an entry in the index is filed under its id, no client
is filed twice, no entry is of a client yet to come, and a client with a negative id is always
filed. Every signal keeps it (`filed_step`). Beyond that the index may be out of order in two ways:
entries may be of clients that are gone, unless the index is `Clean`, and clients may have lost
their entry, unless it is `Complete`; `clean_step_iff` and `complete_step_iff` say at which signals
that begins.
-/

namespace TcpProxy

theorem unfile_sublist (m : Multimap Int ProxyPtr) (id : Int) : (unfile m id).Sublist m := by
  unfold unfile Multimap.erase
  split
  · exact List.filter_sublist
  · exact List.Sublist.refl m

theorem mem_unfile {m : Multimap Int ProxyPtr} {id : Int} {e : Int × ProxyPtr} :
    e ∈ unfile m id ↔ e ∈ m ∧ (0 ≤ id → e.1 ≠ id) := by
  unfold unfile
  split <;> rename_i h <;> simp [h]

namespace Board

structure Filed (B : Board) : Prop where
  entry : ∀ e ∈ B.index, ∀ s, B.sessions.get e.2 = some s → s.peer.isSome ∧ s.id = e.1
  old : ∀ e ∈ B.index, e.2 < B.sessions.next
  nodup : (B.index.map (·.2)).Nodup
  negative : ∀ p s, B.sessions.get p = some s → s.peer.isSome → s.id < 0 → (s.id, p) ∈ B.index

/-- No entry is of a client that is gone. -/
def Clean (B : Board) : Prop := ∀ e ∈ B.index, (B.sessions.get e.2).isSome

/-- Every client that can be closed by its id is filed under it. -/
def Complete (B : Board) : Prop :=
  ∀ p s, B.sessions.get p = some s → s.peer.isSome → 0 ≤ s.id → (s.id, p) ∈ B.index

/-- The client `p`, which has reported the id `k`, leaves by itself at the signal, be it because
the attempt to connect is not started. -/
def Leaves (hosts : Config.Hosts) (B : Board) (sig : Signal) (p : ProxyPtr) (k : Int) : Prop :=
  (∃ s, B.sessions.get p = some s ∧ s.peer.isSome ∧ s.id = k ∧ sig.Ends hosts p s) ∨
    ∃ s host, B.sessions.get p = some s ∧ sig.Admits hosts p s k host false

variable {hosts : Config.Hosts} {B B' : Board} {sig : Signal} {p q : ProxyPtr} {s u : Session}

theorem filed_init : init.Filed := ⟨nofun, nofun, List.nodup_nil, nofun⟩

/-- A client keeps its entry unless another client with its id, which is not negative, leaves. -/
theorem Change.files (hc : Change hosts B sig B') (hu : B'.sessions.get q = some u)
    (hp : u.peer.isSome) (hq : ∀ s, B.sessions.get q = some s → s.peer.isSome → s.id = u.id →
      (u.id, q) ∈ B.index)
    (hl : 0 ≤ u.id → ∀ p, p ≠ q → ¬ Leaves hosts B sig p u.id) : (u.id, q) ∈ B'.index := by
  cases hc with
  | same => exact hq u hu hp rfl
  | @goes p s t hs hk =>
    rw [put_sessions, Heap.get_set_of hs] at hu
    split at hu
    · rename_i e
      subst e
      obtain rfl := Option.some.inj hu
      exact hq s hs (hk.peer ▸ hp) hk.id.symm
    · exact hq u hu hp rfl
  | @dials p s id host bs hs =>
    rw [put_sessions, register_sessions, Heap.get_set_of hs] at hu
    rw [put_index, register_index, Multimap.mem_insert]
    split at hu
    · rename_i e
      obtain rfl := Option.some.inj hu
      exact .inr (by rw [e]; rfl)
    · exact .inl (hq u hu hp rfl)
  | @leaves p s hs he =>
    rw [leave_sessions, Heap.get_free] at hu
    split at hu
    · cases hu
    refine mem_unfile.2 ⟨hq u hu hp rfl, fun h0 hid => ?_⟩
    have hid : u.id = s.id := hid
    have hsome : s.peer.isSome := by
      rcases hn : s.peer with _ | b
      · rw [Session.id_of_peer_none hn] at h0
        omega
      · rfl
    exact hl (hid ▸ h0) p (Ne.symm ‹_›) (.inl ⟨s, hs, hsome, hid.symm, he⟩)
  | @fails p s id host bs hs hg ha =>
    rw [leave_sessions, register_sessions, Heap.get_free] at hu
    split at hu
    · cases hu
    refine mem_unfile.2 ⟨Multimap.mem_insert.2 (.inl (hq u hu hp rfl)), fun h0 hid => ?_⟩
    have hid : u.id = id := hid
    exact hl (hid ▸ h0) p (Ne.symm ‹_›) (.inr ⟨s, host, hs, hid ▸ ha⟩)
  | joins h =>
    rcases hr : B.running with _ | _
    · rw [join_stopped hr] at hu ⊢
      rw [Heap.get_alloc_free] at hu
      exact hq u hu hp rfl
    · rw [join_running hr] at hu ⊢
      rw [Heap.get_alloc] at hu
      split at hu
      · obtain rfl := Option.some.inj hu
        cases hp
      · exact hq u hu hp rfl
  | closes h =>
    rw [close_get] at hu
    split at hu
    · cases hu
    · rename_i hv
      refine Multimap.mem_erase.2 ⟨hq u hu hp rfl, fun e => hv ?_⟩
      have e : u.id = _ := e
      exact e ▸ hq u hu hp rfl
  | closesAll h => cases hu

/-- The clients that had no entry may come and go, the others go or stay as they are. -/
theorem Filed.mono (h : Filed B) (hi : B'.index.Sublist B.index)
    (hneg : ∀ p s, B'.sessions.get p = some s → s.peer.isSome → s.id < 0 → (s.id, p) ∈ B'.index)
    (hn : B.sessions.next ≤ B'.sessions.next)
    (hget : ∀ p t, p < B.sessions.next → B'.sessions.get p = some t →
      ∃ s, B.sessions.get p = some s ∧ t.peer = s.peer ∧ t.id = s.id) : Filed B' where
  entry e he t ht := by
    obtain ⟨s, hs, hp, hid⟩ := hget e.2 t (h.old e (hi.subset he)) ht
    rw [hp, hid]
    exact h.entry e (hi.subset he) s hs
  old e he := Nat.lt_of_lt_of_le (h.old e (hi.subset he)) hn
  nodup := h.nodup.sublist (hi.map _)
  negative := hneg

/-- The client `p`, which has no id yet, is filed under `id` and then goes on under it or goes. -/
theorem Filed.register {id : Int} (h : Filed B) (hs : B.sessions.get p = some s)
    (hg : s.peer = none) (hi : B'.index.Sublist (B.index.insert id p))
    (hneg : ∀ p s, B'.sessions.get p = some s → s.peer.isSome → s.id < 0 → (s.id, p) ∈ B'.index)
    (hn : B'.sessions.next = B.sessions.next)
    (hp : ∀ t, B'.sessions.get p = some t → t.peer.isSome ∧ t.id = id)
    (hget : ∀ q, q ≠ p → B'.sessions.get q = B.sessions.get q) : Filed B' where
  entry e he t ht := by
    by_cases hq : e.2 = p
    · rcases Multimap.mem_insert.1 (hi.subset he) with hm | rfl
      · have := (h.entry e hm s (hq ▸ hs)).1
        rw [hg] at this
        cases this
      · exact hp t ht
    · rcases Multimap.mem_insert.1 (hi.subset he) with hm | rfl
      · exact h.entry e hm t (by rw [← hget _ hq]; exact ht)
      · exact absurd rfl hq
  old e he := by
    rw [hn]
    rcases Multimap.mem_insert.1 (hi.subset he) with hm | rfl
    · exact h.old e hm
    · exact Heap.lt_next hs
  nodup := by
    refine (Multimap.nodup_insert h.nodup fun i hm => ?_).sublist (hi.map _)
    have := (h.entry _ hm s hs).1
    rw [hg] at this
    cases this
  negative := hneg

theorem Change.filed (hc : Change hosts B sig B') (h : Filed B) : Filed B' := by
  have hneg : ∀ p s, B'.sessions.get p = some s → s.peer.isSome → s.id < 0 →
      (s.id, p) ∈ B'.index := fun p u hu hp hid =>
    hc.files hu hp (fun s hs hps e => e ▸ h.negative p s hs hps (e ▸ hid)) fun h0 => by omega
  cases hc with
  | same => exact h
  | goes hs hk =>
    refine h.mono (.refl _) hneg (Nat.le_refl _) fun q u _ hu => ?_
    rw [put_sessions, Heap.get_set_of hs] at hu
    split at hu
    · rename_i e
      obtain rfl := Option.some.inj hu
      exact ⟨_, e ▸ hs, hk.peer, hk.id⟩
    · exact ⟨u, hu, rfl, rfl⟩
  | dials hs hg hbs ha =>
    refine h.register hs (Session.peer_of_begin hg) (.refl _) hneg rfl (fun u hu => ?_)
      fun q hq => ?_
    · rw [put_sessions, register_sessions, Heap.get_set_self hs] at hu
      obtain rfl := Option.some.inj hu
      exact ⟨rfl, rfl⟩
    · exact Heap.get_set_ne hq _
  | leaves hs =>
    refine h.mono (unfile_sublist _ _) hneg (Nat.le_refl _) fun q u _ hu => ⟨u, ?_, rfl, rfl⟩
    rw [leave_sessions, Heap.get_free] at hu
    split at hu
    · cases hu
    · exact hu
  | fails hs hg ha =>
    refine h.register hs (Session.peer_of_begin hg) (unfile_sublist _ _) hneg rfl
      (fun u hu => ?_) fun q hq => ?_
    · rw [leave_sessions, Heap.get_free_self] at hu
      cases hu
    · rw [leave_sessions, Heap.get_free, if_neg hq, register_sessions]
  | joins he =>
    refine h.mono (.refl _) hneg ?_ fun q u hq hu => ⟨u, ?_, rfl, rfl⟩
    · unfold join
      split <;> simp
    · rw [← hu]
      unfold join
      split <;> simp [Heap.get_free, Heap.get_alloc, Nat.ne_of_lt hq]
  | closes he =>
    refine h.mono List.filter_sublist hneg ?_ fun q u _ hu => ⟨u, ?_, rfl, rfl⟩
    · simp [close]
    · rw [close_get] at hu
      split at hu
      · cases hu
      · exact hu
  | closesAll he =>
    refine ⟨fun e hm => ?_, fun e hm => ?_, List.nodup_nil, hneg⟩ <;> cases hm

/-- **Every signal keeps the index in order.** -/
theorem filed_step (sig : Signal) (h : Filed B) : Filed (B.step hosts sig) :=
  (step_change hosts B sig).filed h

/-! ## When the index goes out of order -/

theorem Leaves.subject {k : Int} (h : Leaves hosts B sig p k) : sig.subject = some p := by
  rcases h with ⟨s, -, -, -, he⟩ | ⟨s, host, -, ha⟩
  · rcases Signal.ends_iff.1 he with rfl | ⟨rfl, -⟩ | ⟨-, chunk, d, rfl, -⟩ <;> rfl
  · obtain ⟨-, chunk, rfl, -⟩ := Signal.admits_iff.1 ha
    rfl

/-- A client that leaves by itself takes all entries of its id along if that is not negative, and
leaves its own behind if it is. -/
theorem Leaves.step {k : Int} (h : Leaves hosts B sig p k) (hF : Filed B) :
    (B.step hosts sig).sessions.get p = none ∧
      ∃ m, (B.step hosts sig).index = unfile m k ∧ (k < 0 → (k, p) ∈ m) := by
  rcases h with ⟨s, hs, hp, rfl, he⟩ | ⟨s, host, hs, ha⟩
  · rw [step_ends hs he]
    exact ⟨Heap.get_free_self _ _, _, rfl, hF.negative p s hs hp⟩
  · obtain ⟨bs, hB⟩ := step_admits hs ha
    rw [hB, if_neg Bool.false_ne_true]
    exact ⟨Heap.get_free_self _ _, _, rfl, fun _ => Multimap.mem_insert.2 (.inr rfl)⟩

/-- **Entries go stale** when a client with a negative id leaves by itself, and only then. -/
theorem clean_step_iff (hF : Filed B) (h : Clean B) :
    Clean (B.step hosts sig) ↔ ∀ p k, Leaves hosts B sig p k → 0 ≤ k := by
  constructor
  · intro hc p k hl
    by_contra hk
    obtain ⟨hp, m, hm, hneg⟩ := hl.step hF
    have := hc (k, p) (hm ▸ mem_unfile.2 ⟨hneg (by omega), fun h0 => absurd h0 hk⟩)
    rw [hp] at this
    cases this
  · intro hl e he
    have hc := step_change hosts B sig
    generalize B.step hosts sig = B' at hc he ⊢
    cases hc with
    | same => exact h e he
    | goes hs =>
      rw [put_sessions, Heap.get_set_of hs]
      split
      · rfl
      · exact h e he
    | dials hs =>
      rw [put_sessions, register_sessions, Heap.get_set_of hs]
      split
      · rfl
      · rcases Multimap.mem_insert.1 he with hm | rfl
        · exact h e hm
        · exact absurd rfl ‹_›
    | @leaves p s hs hends =>
      obtain ⟨hm, hid⟩ := mem_unfile.1 he
      have hne : e.2 ≠ p := by
        rintro rfl
        obtain ⟨hp, hk⟩ := hF.entry e hm s hs
        exact hid (hl e.2 s.id (.inl ⟨s, hs, hp, rfl, hends⟩)) hk.symm
      rw [leave_sessions, Heap.get_free, if_neg hne]
      exact h e hm
    | @fails p s id host bs hs hg ha =>
      obtain ⟨hm, hid⟩ := mem_unfile.1 he
      have hm : e ∈ B.index ∧ e.2 ≠ p := by
        rcases Multimap.mem_insert.1 hm with hold | rfl
        · refine ⟨hold, ?_⟩
          rintro rfl
          have := (hF.entry e hold s hs).1
          rw [Session.peer_of_begin hg] at this
          cases this
        · exact absurd rfl (hid (hl p id (.inr ⟨s, host, hs, ha⟩)))
      rw [leave_sessions, register_sessions, Heap.get_free, if_neg hm.2]
      exact h e hm.1
    | joins hj =>
      rcases hr : B.running with _ | _
      · rw [join_stopped hr] at he ⊢
        rw [Heap.get_alloc_free]
        exact h e he
      · rw [join_running hr] at he ⊢
        rw [Heap.get_alloc, if_neg (Nat.ne_of_lt (hF.old e he))]
        exact h e he
    | @closes k hk =>
      obtain ⟨hm, hne⟩ := Multimap.mem_erase.1 he
      rw [close_get, if_neg]
      · exact h e hm
      · exact fun hv => hne (Multimap.key_unique hF.nodup hm hv)
    | closesAll => cases he

/-- **Entries get lost** when a client leaves by itself while another one has its id, not a
negative one, and only then. -/
theorem complete_step_iff (hF : Filed B) (h : Complete B) :
    Complete (B.step hosts sig) ↔ ∀ p k, 0 ≤ k → Leaves hosts B sig p k →
      ∀ q s, q ≠ p → B.sessions.get q = some s → s.peer.isSome → s.id ≠ k := by
  constructor
  · rintro hc p k hk hl q s hq hs hp rfl
    obtain ⟨-, m, hm, -⟩ := hl.step hF
    have hmem := hc q s ((step_other hl.subject hq).trans hs) hp hk
    rw [hm] at hmem
    exact (mem_unfile.1 hmem).2 hk rfl
  · intro hl q u hu hp h0
    refine (step_change hosts B sig).files hu hp (fun s hs hps e => e ▸ h q s hs hps (e ▸ h0))
      fun _ p hne hlv => ?_
    exact hl p u.id h0 hlv q u hne.symm ((step_other hlv.subject hne.symm).symm.trans hu) hp rfl

end Board

end TcpProxy
