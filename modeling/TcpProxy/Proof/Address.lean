import TcpProxy.Model.Address
import TcpProxy.Proof.CommandLine

/-!
# Broker addresses

An address splits at the first `@`, the first `/` behind it and the first `:` in front of that. The
addresses that some text is read as are those with no separator in a field it would end and with a
vhost that is not empty, since an empty one is read as `/` (`Address.Wf`). `operator<<` and
`operator std::string` write them in a way that is read back, but for two slips: a login that is set
to nothing, and a port that is only the default of the other protocol.
-/

namespace TcpProxy

namespace AMQP

/-- No part holds a separator that would end it. -/
structure Login.Wf (l : Login) : Prop where
  user : '@' ∉ l.user ∧ ':' ∉ l.user
  password : '@' ∉ l.password

/-- No part holds a separator that would end it, and the vhost is not empty. -/
structure Address.Wf (a : Address) : Prop where
  login : a.login.Wf
  hostname : ':' ∉ a.hostname ∧ '/' ∉ a.hostname
  vhost : a.vhost ≠ []

section
variable {c : Char} {cs pre post : List Char} {i : Nat}

theorem memchr_none : memchr c cs = none ↔ c ∉ cs := List.idxOf?_eq_none_iff

theorem memchr_append (h : c ∉ pre) :
    memchr c (pre ++ post) = (memchr c post).map (· + pre.length) := by
  induction pre with
  | nil => simp
  | cons d pre ih =>
    have hd : d ≠ c := fun e => h (e ▸ List.mem_cons_self)
    have ih := ih fun hc => h (List.mem_cons_of_mem d hc)
    simp only [memchr] at ih ⊢
    rw [List.cons_append, List.idxOf?_cons, beq_eq_false_iff_ne.2 hd, ih]
    simp [Function.comp_def, Nat.add_assoc]

theorem memchr_split (h : c ∉ pre) : memchr c (pre ++ c :: post) = some pre.length := by
  rw [memchr_append h]
  simp [memchr, List.idxOf?_cons]

/-- The text is split at the first `c`. -/
theorem memchr_some (h : memchr c cs = some i) :
    ∃ pre post, cs = pre ++ c :: post ∧ c ∉ pre ∧ pre.length = i := by
  induction cs generalizing i with
  | nil => cases h
  | cons d cs ih =>
    by_cases hd : d = c
    · subst hd
      rw [memchr, List.idxOf?_cons, beq_self_eq_true, if_pos rfl] at h
      exact ⟨[], cs, rfl, List.not_mem_nil, Option.some.inj h⟩
    · rw [memchr, List.idxOf?_cons, beq_eq_false_iff_ne.2 hd, if_neg Bool.false_ne_true] at h
      obtain ⟨j, hj, rfl⟩ := Option.map_eq_some_iff.1 h
      obtain ⟨pre, post, rfl, hc, rfl⟩ := ih hj
      exact ⟨d :: pre, post, rfl, by simp [hc, Ne.symm hd], rfl⟩

/-- Only what stands in front counts. -/
theorem memchr_within :
    (memchr c (pre ++ post)).filter (fun i => i < pre.length) = memchr c pre := by
  rcases hm : memchr c pre with _ | i
  · rw [memchr_append (memchr_none.1 hm)]
    rcases memchr c post with _ | i
    · rfl
    · simp
  · obtain ⟨pre, rest, rfl, hc, rfl⟩ := memchr_some hm
    rw [List.append_assoc, List.cons_append, memchr_split hc]
    simp

end

/-! ## Reading a text -/

section
variable {h p v cs : List Char} {secure : Bool} {l : Login} {a : Address}

theorem protocol_text (secure : Bool) (cs : List Char) :
    protocol (protocolText secure ++ cs) = some (secure, cs) := by
  cases secure <;> rfl

/-- The vhost behind the slash. -/
def vhostOf (v : List Char) : List Char := if v = [] then ['/'] else v

theorem vhostOf_text (hv : v ≠ []) : vhostOf (vhostText v) = v := by
  rw [vhostOf, vhostText]
  split <;> simp_all

/-- The address of a host, perhaps with a port, and a vhost. -/
def located (secure : Bool) (l : Login) (host vhost : List Char) : Address :=
  match memchr ':' host with
  | some colon =>
    ⟨secure, l, host.take colon,
      .ofBitVec (BitVec.ofInt 16 (Config.atoi (host.drop (colon + 1)))), vhost⟩
  | none => ⟨secure, l, host, defaultport secure, vhost⟩

/-- With no slash the vhost is the default one. -/
theorem location_host (hs : '/' ∉ h) : location secure l h = located secure l h ['/'] := by
  have hf : (memchr ':' h).filter (fun _ => true) = memchr ':' h := by
    cases memchr ':' h <;> rfl
  simp only [location, memchr_none.2 hs, Option.map_none, Option.getD_none, Option.all_none, hf]
  rfl

theorem location_slash (hs : '/' ∉ h) :
    location secure l (h ++ '/' :: v) = located secure l h (vhostOf v) := by
  have hv : (if 1 < (h ++ '/' :: v).length - h.length then
      (h ++ '/' :: v).drop (h.length + 1) else ['/']) = vhostOf v := by
    cases v <;> simp [vhostOf, List.drop_append]
  simp only [location, memchr_split hs, Option.map_some, Option.getD_some, List.take_left,
    Option.all_some, hv, memchr_within, located]
  rcases hm : memchr ':' h with _ | colon
  · rfl
  · obtain ⟨pre, post, rfl, -, rfl⟩ := memchr_some hm
    simp

/-- A host with no port. -/
theorem located_plain (hc : ':' ∉ h) :
    located secure l h v = ⟨secure, l, h, defaultport secure, v⟩ := by
  rw [located, memchr_none.2 hc]

/-- A host with its port. -/
theorem located_port (hc : ':' ∉ h) : located secure l (h ++ ':' :: p) v =
    ⟨secure, l, h, .ofBitVec (BitVec.ofInt 16 (Config.atoi p)), v⟩ := by
  rw [located, memchr_split hc]
  simp

theorem located_wf (hl : l.Wf) (hs : '/' ∉ h) (hv : v ≠ []) : (located secure l h v).Wf := by
  rcases hm : memchr ':' h with _ | colon
  · rw [located_plain (memchr_none.1 hm)]
    exact ⟨hl, ⟨memchr_none.1 hm, hs⟩, hv⟩
  · obtain ⟨pre, post, rfl, hc, rfl⟩ := memchr_some hm
    rw [located_port hc]
    exact ⟨hl, ⟨hc, fun h => hs (List.mem_append_left _ h)⟩, hv⟩

theorem slash_not_mem_decimal (n : Nat) : '/' ∉ IStream.decimal n := by
  intro h
  have hd := Nat.isDigit_of_mem_toDigits (by decide) (by decide) h
  exact absurd hd (by decide)

/-- What is written behind the login is read back, but for a port that is left out. -/
theorem location_written (hw : a.Wf) (d : UInt16) :
    location secure l (a.hostname ++ (portText d a.port ++ '/' :: vhostText a.vhost)) =
      ⟨secure, l, a.hostname, if a.port = d then defaultport secure else a.port, a.vhost⟩ := by
  rw [portText]
  split
  · rw [List.nil_append, location_slash hw.hostname.2, located_plain hw.hostname.1,
      vhostOf_text hw.vhost]
  · have hs : '/' ∉ a.hostname ++ ':' :: IStream.decimal a.port.toNat := by
      simp [hw.hostname.2, slash_not_mem_decimal]
    rw [← List.append_assoc, location_slash hs, located_port hw.hostname.1, Config.port_decimal,
      vhostOf_text hw.vhost]

theorem login_text (hc : ':' ∉ l.user) : login l.text = l := by
  rw [login, Login.text, memchr_split hc]
  simp

theorem ofText_login (hw : a.Wf) (cs : List Char) :
    Address.ofText (protocolText a.secure ++ (a.login.text ++ '@' :: cs)) =
      some (location a.secure a.login cs) := by
  have hat : '@' ∉ a.login.text := by simp [Login.text, hw.login.user.1, hw.login.password]
  rw [Address.ofText, protocol_text, Option.map_some]
  simp [memchr_split hat, login_text hw.login.user.2]

/-- What is read from a text holds no separator. -/
theorem login_wf (hat : '@' ∉ h) : (login h).Wf := by
  rw [login]
  rcases hm : memchr ':' h with _ | i
  · exact ⟨⟨hat, memchr_none.1 hm⟩, List.not_mem_nil⟩
  · obtain ⟨pre, post, rfl, hc, rfl⟩ := memchr_some hm
    simp only [List.mem_append, List.mem_cons, not_or] at hat
    exact ⟨by simp [hat, hc], by simp [hat]⟩

theorem vhostOf_ne_nil : vhostOf v ≠ [] := by
  rw [vhostOf]
  split
  · exact List.cons_ne_nil _ _
  · assumption

theorem location_wf (hl : l.Wf) (data : List Char) : (location secure l data).Wf := by
  rcases hslash : memchr '/' data with _ | i
  · rw [location_host (memchr_none.1 hslash)]
    exact located_wf hl (memchr_none.1 hslash) (List.cons_ne_nil _ _)
  · obtain ⟨host, v, rfl, hs, rfl⟩ := memchr_some hslash
    rw [location_slash hs]
    exact located_wf hl hs vhostOf_ne_nil

theorem ofText_wf {text : List Char} (h : Address.ofText text = some a) : a.Wf := by
  obtain ⟨⟨secure, data⟩, -, h⟩ := Option.map_eq_some_iff.1 h
  rcases hat : memchr '@' data with _ | i
  · simp only [hat] at h
    rw [← h]
    exact location_wf ⟨by simp [Login.new], by simp [Login.new]⟩ data
  · obtain ⟨pre, post, rfl, hpre, rfl⟩ := memchr_some hat
    simp only [hat] at h
    rw [← h, List.take_left]
    exact location_wf (login_wf hpre) _

/-! ## Reading back what is written -/

/-- The login and the port are written. -/
theorem ofText_written (hw : a.Wf) (d : UInt16) :
    Address.ofText (protocolText a.secure ++ (a.login.text ++ '@' :: (a.hostname ++
      (portText d a.port ++ '/' :: vhostText a.vhost)))) =
      some { a with port := if a.port = d then defaultport a.secure else a.port } := by
  rw [ofText_login hw, location_written hw]

/-- **The addresses that can be said**: those with no separator in a part that it would end and a
vhost that is not empty. -/
theorem Address.wf_iff : a.Wf ↔ ∃ text, Address.ofText text = some a := by
  refine ⟨fun hw => ?_, fun ⟨text, h⟩ => ofText_wf h⟩
  -- with the port written out
  refine ⟨_, (ofText_written hw (a.port + 1)).trans ?_⟩
  have hne : a.port ≠ a.port + 1 := by simp
  rw [if_neg hne]

/-- `operator std::string` leaves the port 5672 out, which a secure address does not mean. -/
theorem ofText_toText (hw : a.Wf) :
    Address.ofText a.toText = some a ↔ ¬ (a.secure = true ∧ a.port = 5672) := by
  rw [Address.toText, ofText_written hw, Option.some_inj, Address.ext_iff]
  obtain ⟨secure, l, hostname, port, vhost⟩ := a
  by_cases hp : port = 5672 <;> cases secure <;> simp [hp, defaultport]

theorem location_login (data : List Char) : (location secure l data).login = l := by
  simp only [location]
  split <;> rfl

theorem login_unset (h : login cs = ⟨[], []⟩) : cs = [] ∨ cs = [':'] := by
  rw [login] at h
  rcases hm : memchr ':' cs with _ | i
  · simp only [hm, Login.mk.injEq] at h
    exact .inl h.1
  · obtain ⟨pre, post, rfl, -, rfl⟩ := memchr_some hm
    simp only [hm, Login.mk.injEq, List.take_left] at h
    obtain ⟨rfl, hpost⟩ := h
    exact .inr (by simpa using hpost)

/-- What follows the host does not start like an unset login. -/
theorem portText_ne (d port : UInt16) (v post : List Char) :
    portText d port ++ '/' :: v ≠ '@' :: post ∧
      portText d port ++ '/' :: v ≠ ':' :: '@' :: post := by
  rw [portText]
  split
  · simp
  · refine ⟨by simp, fun h => ?_⟩
    -- the port starts with a digit
    have htail := (List.cons.inj h).2
    obtain ⟨c, cs, hcs⟩ := List.exists_cons_of_ne_nil
      (IStream.decimal_spec port.toNat).ne_nil
    have hc : c.isDigit = true := Nat.isDigit_of_mem_toDigits (by decide) (by decide)
      (show c ∈ IStream.decimal port.toNat by simp [hcs])
    rw [hcs] at htail
    rw [(List.cons.inj htail).1] at hc
    exact absurd hc (by decide)

/-- With no login written, the default one is read, or another host. -/
theorem ofText_no_login (hw : a.Wf) (d : UInt16) (hl : a.login = ⟨[], []⟩) :
    Address.ofText (protocolText a.secure ++ (a.hostname ++
      (portText d a.port ++ '/' :: vhostText a.vhost))) ≠ some a := by
  intro h
  rw [Address.ofText, protocol_text, Option.map_some] at h
  rcases hat : memchr '@' (a.hostname ++ (portText d a.port ++ '/' :: vhostText a.vhost))
    with _ | i
  · simp only [hat] at h
    have hlogin := congrArg Address.login (Option.some.inj h)
    rw [location_login, hl] at hlogin
    cases hlogin
  · obtain ⟨pre, post, hsplit, -, rfl⟩ := memchr_some hat
    simp only [hat] at h
    have hlogin := congrArg Address.login (Option.some.inj h)
    have hhost := congrArg Address.hostname (Option.some.inj h)
    rw [hsplit] at hlogin hhost
    rw [location_login, hl, List.take_left] at hlogin
    rcases hhn : a.hostname with _ | ⟨c, hostname⟩
    · rw [hhn, List.nil_append] at hsplit
      rcases login_unset hlogin with rfl | rfl
      · exact (portText_ne _ _ _ _).1 hsplit
      · exact (portText_ne _ _ _ _).2 hsplit
    · have hname := hw.hostname
      rw [hhn, List.cons_append] at hsplit
      rw [hhn] at hname hhost
      rcases login_unset hlogin with rfl | rfl
      · -- the host loses its `@`
        obtain ⟨-, rfl⟩ := List.cons.inj hsplit
        have hw' : Address.Wf { a with hostname := hostname } :=
          ⟨hw.login, ⟨fun h => hname.1 (.tail _ h), fun h => hname.2 (.tail _ h)⟩, hw.vhost⟩
        have hloc : (location a.secure ⟨[], []⟩ _).hostname = _ :=
          congrArg Address.hostname (location_written hw' d)
        rw [List.length_nil, Nat.zero_add, List.nil_append, List.drop_succ_cons, List.drop_zero,
          List.take_zero] at hhost
        exact absurd (congrArg List.length (hloc.symm.trans hhost)) (by simp)
      · obtain ⟨rfl, -⟩ := List.cons.inj hsplit
        exact hname.1 List.mem_cons_self

/-- `operator<<` leaves out the port that the protocol means. -/
theorem ofText_streamed (hw : a.Wf) (hl : a.login.isSet = true) :
    Address.ofText a.streamed = some a := by
  rw [Address.streamed, hl, if_pos rfl, List.append_assoc, List.singleton_append,
    ofText_written hw]
  congr 1
  split
  · rename_i hp
    rw [← hp]
  · rfl

/-- **The two ways of writing an address**: what `operator std::string` writes is read back unless
a part holds a separator, the vhost is empty (`/` is read), or the address is secure with the port
5672 (5671 is read); what `operator<<` writes, unless a part holds a separator, the vhost is empty,
or there is no login. -/
theorem ofText_written_iff :
    (Address.ofText a.toText = some a ↔ a.Wf ∧ ¬ (a.secure = true ∧ a.port = 5672)) ∧
      (Address.ofText a.streamed = some a ↔ a.Wf ∧ a.login.isSet = true) := by
  refine ⟨⟨fun h => ?_, fun ⟨hw, hp⟩ => (ofText_toText hw).2 hp⟩,
    fun h => ?_, fun ⟨hw, hl⟩ => ofText_streamed hw hl⟩
  · have hw := ofText_wf h
    exact ⟨hw, (ofText_toText hw).1 h⟩
  · have hw := ofText_wf h
    refine ⟨hw, ?_⟩
    rcases hl : a.login.isSet with _ | _
    · have hl' : a.login = ⟨[], []⟩ := by simpa [Login.isSet, Login.ext_iff] using hl
      rw [Address.streamed, hl] at h
      exact absurd h (ofText_no_login hw _ hl')
    · rfl

end

end AMQP

end TcpProxy
