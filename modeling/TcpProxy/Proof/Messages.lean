import TcpProxy.Model.Control

/-!
# Control message bodies

`JsonParser::parse` reads a value, looks members up, asks whether they are empty and reads their
values; each of these throws on some bodies, and nobody catches. `Request` says which bodies ask
for something, `Throws` which bodies end the process. Every other body is handled
(`handlesBody_iff`): a request is parsed to its message, and the rest changes nothing.
-/

namespace TcpProxy

open Jsoncpp

/-- The body asks to close what is filed under `id`, or everything if `id` is negative. -/
def Request (J : Impl) (body : List UInt8) (id : Int) : Prop :=
  ∃ members client_id, J.parseFromStream body = .ok (some (.object members)) ∧
    (Value.object members).member "job" = .ok (.string "close_sockets") ∧
    (Value.object members).member "client_id" = .ok client_id ∧ client_id ≠ .null ∧
    client_id.toInt? = some id

/-- The body makes the parser throw. -/
inductive Throws (J : Impl) (body : List UInt8) : Exn → Prop
  /-- it is nested too deeply for the reader -/
  | reader {e : Exn} (h : J.parseFromStream body = .error e) : Throws J body e
  /-- its value has no members to look up -/
  | root {root : Value} (hr : J.parseFromStream body = .ok (some root))
      (hk : root.isKeyed = false) : Throws J body .logicError
  /-- its `client_id` and `job` pass every check before the job's text is read, and the job has no
  text -/
  | job {root client_id job : Value} (hr : J.parseFromStream body = .ok (some root))
      (hc : root.member "client_id" = .ok client_id) (hce : client_id.isEmpty = false)
      (hci : client_id.isConvertibleToInt = true) (hj : root.member "job" = .ok job)
      (hje : job.isEmpty = false) (hjt : job.isText = false) : Throws J body .logicError

/-- No exception leaves the parser; a request is parsed to its message, any other body leaves the
message and the proxy as they are. -/
structure HandlesBody (J : Impl) (out : ControlMessage) (body : List UInt8) : Prop where
  accepts : ∀ id, Request J body id → JsonParser.parse J out body =
    .ok (true, { id := id, type := if 0 ≤ id then .CLOSE else .CLOSE_ALL })
  rejects : (∀ id, ¬ Request J body id) → JsonParser.parse J out body = .ok (false, out) ∧
    ∀ w, ControlChannel.onReceived J out body w = .ok w

section
variable {J : Impl} {out : ControlMessage} {body : List UInt8} {root client_id job : Value}
  {id : Int} {e : Exn}

/-- The checks of the parser, on the members it has looked up. -/
theorem parse_eq (hr : J.parseFromStream body = .ok (some root))
    (hc : root.member "client_id" = .ok client_id) (hj : root.member "job" = .ok job) :
    JsonParser.parse J out body =
      if client_id.isEmpty ∨ job.isEmpty ∨ client_id.isConvertibleToInt = false then
        .ok (false, out)
      else job.asString J >>= fun text =>
        if text ≠ "close_sockets" then .ok (false, out)
        else client_id.asInt >>= fun id =>
          .ok (true, { id := id, type := if 0 ≤ id then .CLOSE else .CLOSE_ALL }) := by
  simp only [JsonParser.parse, hr, hc, hj, bind, Except.bind]
  by_cases h₁ : client_id.isEmpty
  · simp [h₁]
  by_cases h₂ : job.isEmpty
  · simp [h₁, h₂]
  by_cases h₃ : client_id.isConvertibleToInt <;> simp [h₁, h₂, h₃]

/-- Only the text `close_sockets` is read as such: no number's and no boolean's text is it. -/
theorem close_sockets_text (h : job.asString J = .ok "close_sockets") :
    job = .string "close_sockets" :=
  Value.asString_eq_string h ⟨'c', by decide, by decide⟩ (by decide) (by decide)

theorem parse_of_request (h : Request J body id) : JsonParser.parse J out body =
    .ok (true, { id := id, type := if 0 ≤ id then .CLOSE else .CLOSE_ALL }) := by
  obtain ⟨members, client_id, hr, hj, hc, hn, hi⟩ := h
  have hne : client_id.isEmpty = false := by
    rcases he : client_id.isEmpty with _ | _
    · rfl
    · rcases Value.toInt?_of_isEmpty he with h | h
      · exact absurd h hn
      · rw [hi] at h
        cases h
  have hconv : client_id.isConvertibleToInt = true := by rw [Value.isConvertibleToInt, hi]; rfl
  have hje : (Value.string "close_sockets").isEmpty = false := rfl
  rw [parse_eq hr hc hj, if_neg (by simp [hne, hje, hconv])]
  simp only [Value.asString, bind, Except.bind, ne_eq, not_true_eq_false, if_false,
    Value.asInt_ok.2 hi]

theorem parse_of_throws (h : Throws J body e) : JsonParser.parse J out body = .error e := by
  cases h with
  | reader h => simp only [JsonParser.parse, h, bind, Except.bind]
  | @root root hr hk =>
    cases root <;>
      simp_all [JsonParser.parse, Value.member, Value.isKeyed, bind, Except.bind]
  | @job root client_id job hr hc hce hci hj hje hjt =>
    rw [parse_eq hr hc hj, if_neg (by simp [hce, hci, hje])]
    cases job <;> simp_all [Value.isText, Value.asString, bind, Except.bind]

theorem parse_of_neither (ht : ∀ e, ¬ Throws J body e) (hq : ∀ id, ¬ Request J body id) :
    JsonParser.parse J out body = .ok (false, out) := by
  rcases hr : J.parseFromStream body with e | _ | root
  · exact absurd (.reader hr) (ht e)
  · simp only [JsonParser.parse, hr, bind, Except.bind]
  have hk : root.isKeyed = true := by
    by_contra hk
    exact ht _ (.root hr (by simpa using hk))
  obtain ⟨client_id, hc⟩ := (Value.member_eq root "client_id").2 hk
  obtain ⟨job, hj⟩ := (Value.member_eq root "job").2 hk
  rw [parse_eq hr hc hj]
  split
  · rfl
  next hchecks =>
    simp only [not_or, Bool.not_eq_true, Bool.not_eq_false] at hchecks
    obtain ⟨hce, hje, hci⟩ := hchecks
    -- past the checks the job has a text, since the body does not throw
    have hjt : job.isText = true := by
      by_contra hjt
      exact ht _ (.job hr hc hce hci hj hje (by simpa using hjt))
    obtain ⟨text, htext⟩ := (Value.asString_eq J job).2 hjt
    simp only [htext, bind, Except.bind]
    by_cases hcs : text = "close_sockets"
    · -- the body would be a request
      subst hcs
      obtain ⟨id, hid⟩ := Option.isSome_iff_exists.1 hci
      cases root with
      | object members =>
        refine absurd ⟨members, client_id, hr, close_sockets_text htext ▸ hj, hc, ?_, hid⟩ (hq id)
        rintro rfl
        cases hce
      | null => cases hc; cases hce
      | _ => cases hk
    · rw [if_pos hcs]

/-- **A message body is handled exactly if it is none that throws.** -/
theorem handlesBody_iff : HandlesBody J out body ↔ ∀ e, ¬ Throws J body e := by
  constructor
  · intro h e ht
    have herr : JsonParser.parse J out body = .error e := parse_of_throws ht
    by_cases hq : ∃ id, Request J body id
    · obtain ⟨id, hq⟩ := hq
      rw [h.accepts id hq] at herr
      cases herr
    · rw [(h.rejects (not_exists.1 hq)).1] at herr
      cases herr
  · intro ht
    refine ⟨fun id hq => parse_of_request hq, fun hq => ?_⟩
    have hp : JsonParser.parse J out body = .ok (false, out) := parse_of_neither ht hq
    exact ⟨hp, fun w => by simp only [ControlChannel.onReceived, hp]⟩

end

/-- The body `[]` is an array, in which no member can be looked up: the callback throws. -/
theorem handlesBody_array : ∃ J : Impl, J.parseFromStream [0x5B, 0x5D] = .ok (some (.array [])) ∧
    (∀ out w, ControlChannel.onReceived J out [0x5B, 0x5D] w = .error (.uncaught .logicError)) ∧
    ∀ out, ¬ HandlesBody J out [0x5B, 0x5D] := by
  let J : Impl :=
    { parseFromStream := fun body => .ok (if body = [0x5B, 0x5D] then some (.array []) else none)
      numberText := fun _ => "0"
      numberText_chars := fun _ c hc => by
        obtain rfl : c = '0' := by simpa using hc
        rfl }
  have hr : J.parseFromStream [0x5B, 0x5D] = .ok (some (.array [])) := rfl
  refine ⟨J, hr, fun out w => rfl, fun out h => ?_⟩
  have hq : ∀ id, ¬ Request J [0x5B, 0x5D] id := by
    rintro id ⟨members, client_id, hm, -⟩
    rw [hr] at hm
    cases hm
  cases (h.rejects hq).1

end TcpProxy
