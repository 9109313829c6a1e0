import Mathlib.Tactic.Common

/-!
# Bufferevents

What a program sees of libevent's socket bufferevents: an input evbuffer the event loop appends
to, an output evbuffer it takes from in prefixes of any size, and the state of the socket under
them. Beside the evbuffers a bufferevent keeps the two byte streams of its socket, everything the
socket has delivered (`received`) and everything it has taken (`Outbox.sent`).

Assumed of libevent, and stated here as definitions: a bufferevent has one input evbuffer for its
whole life; `evbuffer_add_buffer` moves every byte of its source to the end of its destination;
`evbuffer_copyout` copies a prefix and leaves the buffer as it is; `bufferevent_free` discards the
output not written yet.
-/

/-- Bytes on their way to a socket: those it has taken and those still waiting, in order. -/
@[ext]
structure Outbox (α : Type*) where
  sent : List α
  pending : List α

namespace Outbox

variable {α : Type*}

def empty : Outbox α := ⟨[], []⟩

/-- Everything ever put in the outbox. -/
def all (o : Outbox α) : List α := o.sent ++ o.pending

def push (o : Outbox α) (xs : List α) : Outbox α := ⟨o.sent, o.pending ++ xs⟩

/-- The socket takes the next `n` elements. -/
def take (o : Outbox α) (n : Nat) : Outbox α :=
  ⟨o.sent ++ o.pending.take n, o.pending.drop n⟩

@[simp] theorem all_empty : (empty : Outbox α).all = [] := rfl

@[simp] theorem all_push (o : Outbox α) (xs : List α) : (o.push xs).all = o.all ++ xs := by
  simp [all, push]

@[simp] theorem all_take (o : Outbox α) (n : Nat) : (o.take n).all = o.all := by
  simp [all, take]

/-- The socket has taken everything exactly if nothing waits. -/
theorem sent_eq_all (o : Outbox α) : o.sent = o.all ↔ o.pending = [] := by
  simp [all]

/-- What the socket has taken is the start of what has been put in. -/
theorem sent_prefix_all (o : Outbox α) : o.sent <+: o.all := List.prefix_append _ _

/-- `o'` is `o` some time later: nothing that was put in or taken is taken back. -/
structure Le (o o' : Outbox α) : Prop where
  sent : o.sent <+: o'.sent
  all : o.all <+: o'.all

theorem Le.refl (o : Outbox α) : o.Le o := ⟨List.prefix_refl _, List.prefix_refl _⟩

theorem Le.trans {o o' o'' : Outbox α} (h : o.Le o') (h' : o'.Le o'') : o.Le o'' :=
  ⟨h.sent.trans h'.sent, h.all.trans h'.all⟩

theorem le_push (o : Outbox α) (xs : List α) : o.Le (o.push xs) :=
  ⟨List.prefix_refl _, by rw [all_push]; exact List.prefix_append _ _⟩

theorem le_take (o : Outbox α) (n : Nat) : o.Le (o.take n) :=
  ⟨List.prefix_append _ _, (all_take o n).symm ▸ List.prefix_refl o.all⟩

theorem empty_le (o : Outbox α) : empty.Le o := ⟨List.nil_prefix, List.nil_prefix⟩

end Outbox

namespace Libevent

/-! ## Event flags -/

def BEV_EVENT_EOF : BitVec 16 := 0x10#16
def BEV_EVENT_ERROR : BitVec 16 := 0x20#16
def BEV_EVENT_CONNECTED : BitVec 16 := 0x80#16

/-- The flags say that the connect has succeeded. -/
def isConnected (events : BitVec 16) : Bool := events &&& BEV_EVENT_CONNECTED != 0

/-- The flags say that the peer has closed or the socket has failed. -/
def isClosed (events : BitVec 16) : Bool :=
  events &&& (BEV_EVENT_EOF ||| BEV_EVENT_ERROR) != 0

theorem isClosed_of_eof {events : BitVec 16} (h : events &&& BEV_EVENT_EOF ≠ 0) :
    isClosed events = true := by
  rw [isClosed, bne_iff_ne]
  intro h0
  -- the flag alone is a part of both
  have hmask : events &&& BEV_EVENT_EOF =
      (events &&& (BEV_EVENT_EOF ||| BEV_EVENT_ERROR)) &&& BEV_EVENT_EOF := by
    rw [BitVec.and_assoc]
    rfl
  rw [hmask, h0] at h
  exact h rfl

/-! ## Bufferevents -/

/-- The socket under a bufferevent: none yet, a connect in progress, connected, closed or failed. -/
inductive Link
  | idle
  | connecting
  | up
  | down
  deriving DecidableEq, Repr

/-- A bufferevent whose callbacks are registered with the argument `ctx`. -/
@[ext]
structure Bufferevent (κ : Type*) where
  ctx : κ
  link : Link
  input : List UInt8
  received : List UInt8
  output : Outbox UInt8

namespace Bufferevent

variable {κ : Type*}

/-- `bufferevent_socket_new`. -/
def new (ctx : κ) (link : Link) : Bufferevent κ := ⟨ctx, link, [], [], .empty⟩

/-- The socket delivers `chunk`; the read callback follows. -/
def deliver (b : Bufferevent κ) (chunk : List UInt8) : Bufferevent κ :=
  { b with input := b.input ++ chunk, received := b.received ++ chunk }

/-- The socket takes the next `n` bytes of the output. -/
def write (b : Bufferevent κ) (n : Nat) : Bufferevent κ := { b with output := b.output.take n }

/-- The socket changes state as `events` says; the event callback follows. -/
def report (b : Bufferevent κ) (events : BitVec 16) : Bufferevent κ :=
  { b with link := if isConnected events then .up else if isClosed events then .down else b.link }

/-- `b'` is `b` some time later: its callbacks are bound to the same object, and its streams have
only grown. -/
structure Grows (b b' : Bufferevent κ) : Prop where
  ctx : b'.ctx = b.ctx
  received : b.received <+: b'.received
  output : b.output.Le b'.output

theorem Grows.refl (b : Bufferevent κ) : b.Grows b := ⟨rfl, List.prefix_refl _, .refl _⟩

theorem Grows.trans {b b' b'' : Bufferevent κ} (h : b.Grows b') (h' : b'.Grows b'') :
    b.Grows b'' :=
  ⟨h'.ctx.trans h.ctx, h.received.trans h'.received, h.output.trans h'.output⟩

/-- The event loop reads from a socket that is connected or about to be, one or more bytes. -/
def canRead (b : Bufferevent κ) (chunk : List UInt8) : Bool :=
  (b.link == .up || b.link == .connecting) && !chunk.isEmpty

/-- The event loop writes to a connected socket. -/
def canWrite (b : Bufferevent κ) : Bool := b.link == .up

/-- A socket reports a successful connect only while one is in progress. -/
def canReport (b : Bufferevent κ) (events : BitVec 16) : Bool :=
  !isConnected events || b.link == .connecting

end Bufferevent

/-! ## Evbuffers -/

/-- `evbuffer_copyout`: the number of bytes copied and the bytes. -/
def copyout (buf : List UInt8) (n : Nat) : Nat × List UInt8 := (min n buf.length, buf.take n)

end Libevent
